import Scriptlet.Proofs.Grammar.Break

/-!
The tokens of a source text start with an expression or break off in one: there is no third way.
This is about the grammar alone, no reading is done. Main statement: `settled`, by induction on the
number of tokens.
-/

namespace Scriptlet

open Parse
open Grammar (standard)
open Token (Ended)

namespace Token.Ended

variable {t : Token} {rest tokens : List Token}

theorem exists_cons (ended : Ended tokens) : ∃ t rest, tokens = t :: rest := by
  obtain ⟨body, stop, rfl, -⟩ := ended
  exact List.exists_cons_of_ne_nil (by simp)

theorem tail (ended : Ended (t :: rest)) (more : t.kind ≠ .eof) : t.Lexical ∧ Ended rest := by
  obtain ⟨body, stop, split, lexical⟩ := ended
  cases body with
  | nil =>
    obtain ⟨rfl, -⟩ := List.cons.inj split
    exact absurd rfl more
  | cons u body =>
    obtain ⟨rfl, rfl⟩ := List.cons.inj split
    obtain ⟨first, others⟩ := List.forall_mem_cons.1 lexical
    exact ⟨first, body, stop, rfl, others⟩

end Token.Ended

-- The tokens start with a stretch that is done, or break off after one.
def Progress (done : List Token → List Token → Prop) (broken : List Token → Token → Prop)
    (tokens : List Token) : Prop :=
  (∃ ts rest, tokens = ts ++ rest ∧ Ended rest ∧ done ts rest) ∨
    ∃ ts bad rest, tokens = ts ++ bad :: rest ∧ broken ts bad

namespace Progress

variable {done next : List Token → List Token → Prop} {broken fails : List Token → Token → Prop}
  {rest tokens : List Token} {bad : Token}

theorem of_done (ts : List Token) (ended : Ended rest) (holds : done ts rest) :
    Progress done broken (ts ++ rest) :=
  .inl ⟨ts, rest, rfl, ended, holds⟩

theorem of_broken (ts : List Token) (holds : broken ts bad) :
    Progress done broken (ts ++ bad :: rest) :=
  .inr ⟨ts, bad, rest, rfl, holds⟩

theorem after (ts : List Token)
    (progress : Progress (fun us rest => done (ts ++ us) rest) (fun us bad => broken (ts ++ us) bad)
      rest) : Progress done broken (ts ++ rest) := by
  rcases progress with ⟨us, last, rfl, ended, holds⟩ | ⟨us, bad, last, rfl, holds⟩
  · rw [← List.append_assoc]
    exact of_done _ ended holds
  · rw [← List.append_assoc]
    exact of_broken _ holds

theorem bind (first : Progress done broken tokens)
    (breaks : ∀ {ts bad rest}, tokens = ts ++ bad :: rest → broken ts bad → fails ts bad)
    (goes : ∀ {ts rest}, tokens = ts ++ rest → Ended rest → done ts rest →
      Progress (fun us after => next (ts ++ us) after) (fun us bad => fails (ts ++ us) bad) rest) :
    Progress next fails tokens := by
  rcases first with ⟨ts, rest, rfl, ended, holds⟩ | ⟨ts, bad, rest, rfl, holds⟩
  · exact after ts (goes rfl ended holds)
  · exact of_broken ts (breaks rfl holds)

theorem mono (progress : Progress done broken tokens)
    (breaks : ∀ {ts bad rest}, tokens = ts ++ bad :: rest → broken ts bad → fails ts bad)
    (finishes : ∀ {ts rest}, done ts rest → next ts rest) : Progress next fails tokens := by
  rcases progress with ⟨ts, rest, rfl, ended, holds⟩ | ⟨ts, bad, rest, rfl, holds⟩
  · exact of_done ts ended (finishes holds)
  · exact of_broken ts (breaks rfl holds)

end Progress

theorem spells_leaf {t : Token} (lexical : t.Lexical)
    (opens : standard.opening t.kind = some .leaf) :
    ∃ e, Spells .primary [t] e := by
  cases lexical with
  | symbol listed => exact absurd opens (symbols_not_leaf listed)
  | reserved listed =>
    rcases reserved_leaf listed opens with ⟨rfl, rfl⟩ | ⟨rfl, rfl⟩ | ⟨rfl, rfl⟩
    · exact ⟨.literal default .empty, .literal .empty⟩
    · exact ⟨.literal default (.state true), .literal .yes⟩
    · exact ⟨.literal default (.state false), .literal .no⟩
  | identifier => exact ⟨.identifier default _, .name rfl⟩
  | integer digital short =>
    obtain ⟨n, -, meant, -⟩ := Integer.read?_lexical digital short
    exact ⟨.literal default (.integer n), .literal (.integer digital rfl meant)⟩
  | negative digital short =>
    obtain ⟨n, -, -, meant⟩ := Integer.read?_lexical digital short
    exact ⟨.literal default (.integer (-n)), .literal (.negative digital rfl meant)⟩
  | point digital fractional =>
    exact ⟨.literal default _, .literal (.point digital fractional rfl)⟩
  | negativePoint digital fractional =>
    exact ⟨.literal default _, .literal (.negativePoint digital fractional rfl)⟩
  | text => exact ⟨.literal default (.text _), .literal .text⟩

-- The tokens start with an expression that nothing tighter follows, or break off in one.
def ExpressionProgress (least : Power) (tokens : List Token) : Prop :=
  Progress (fun ts rest => ∃ e, Spells least.layer ts e ∧ headRank rest ≤ least.rank) (Breaks least)
    tokens

-- Lists up to this length are settled.
def Settled (bound : Nat) : Prop :=
  ∀ {least tokens}, least.rank ≤ Power.unary.rank → Ended tokens → tokens.length ≤ bound →
    ExpressionProgress least tokens

variable {bound : Nat} {least : Power} {t : Token} {tokens us : List Token}

theorem Settled.before (settled : Settled bound) (close : TokenKind) (more : close ≠ .eof)
    (ended : Ended tokens) (short : tokens.length ≤ bound) :
    Progress (fun ts _ => ∃ us e closer, ts = us ++ [closer] ∧ closer.kind = close ∧
      Spells .disjunction us e) (BreaksBefore close) tokens := by
  apply (@settled .default _ (by decide) ended short).bind
  · intro ts bad rest _ breaks
    exact .value breaks
  · rintro ts rest - ended ⟨e, spells, follows⟩
    obtain ⟨u, rest, rfl⟩ := ended.exists_cons
    by_cases closes : u.kind = close
    · have next := ended.tail (closes ▸ more)
      exact .of_done [u] next.2 ⟨ts, e, u, rfl, closes, spells⟩
    · apply Progress.of_broken []
      rw [List.append_nil]
      exact .unclosed spells (Nat.le_zero.1 follows) closes

theorem Settled.items (settled : Settled bound) (close : TokenKind) (more : close ≠ .eof)
    (ended : Ended tokens) (short : tokens.length ≤ bound) :
    Progress (fun ts _ => ∃ us es closer, ts = us ++ [closer] ∧ closer.kind = close ∧
      SpellsItems us es ∧ es ≠ []) (BreaksItems close) tokens := by
  induction length : tokens.length using Nat.strongRecOn generalizing tokens with
  | ind length ih =>
    subst length
    apply (@settled .default _ (by decide) ended short).bind
    · intro ts bad rest _ breaks
      exact .item breaks
    · rintro ts rest split ended ⟨e, spells, follows⟩
      obtain ⟨u, rest, rfl⟩ := ended.exists_cons
      by_cases closes : u.kind = close
      · have next := ended.tail (closes ▸ more)
        exact .of_done [u] next.2 ⟨ts, [e], u, rfl, closes, .last spells, by simp⟩
      · by_cases separated : u.kind = .comma
        · have shorter : rest.length < tokens.length := by
            simp only [split, List.length_append, List.length_cons]
            omega
          have next := ended.tail (by simp [separated])
          apply Progress.after [u]
          apply (ih _ shorter next.2 (by omega) rfl).mono
          · intro us bad _ _ breaks
            exact .more spells separated breaks
          · rintro us rest ⟨vs, es, closer, rfl, closes, others, some⟩
            exact ⟨ts ++ u :: vs, e :: es, closer, by simp, closes,
              .more spells separated others some, by simp⟩
        · apply Progress.of_broken []
          rw [List.append_nil]
          exact .unclosed spells (Nat.le_zero.1 follows) separated closes

theorem headD_of_split {bad : Token} {rest after : List Token}
    (split : t :: rest = us ++ bad :: after) : us.headD bad = t := by
  cases us <;> exact (List.cons.inj split).1.symm

theorem Settled.itemsUntil (settled : Settled bound) (close : TokenKind) (more : close ≠ .eof)
    (ended : Ended tokens) (short : tokens.length ≤ bound) :
    Progress (fun ts _ => ∃ us es closer, ts = us ++ [closer] ∧ closer.kind = close ∧
      SpellsItems us es)
      (fun us bad => BreaksItems close us bad ∧ (us.headD bad).kind ≠ close) tokens := by
  obtain ⟨u, rest, rfl⟩ := ended.exists_cons
  by_cases closes : u.kind = close
  · have next := ended.tail (closes ▸ more)
    exact .of_done [u] next.2 ⟨[], [], u, rfl, closes, .none⟩
  · apply (settled.items close more ended short).mono
    · intro us bad rest split breaks
      exact ⟨breaks, headD_of_split split ▸ closes⟩
    · rintro ts rest ⟨us, es, closer, rfl, closes, spells, -⟩
      exact ⟨us, es, closer, rfl, closes, spells⟩

-- Two tokens decide that a cast has begun; none of those after them matter.
theorem StartsCast.append {bad : Token} {rest : List Token} (starts : StartsCast (us ++ [bad])) :
    StartsCast (us ++ bad :: rest) := by
  rcases us with _ | ⟨u, _ | ⟨v, vs⟩⟩
  · exact starts.elim
  · exact starts
  · exact starts

theorem StartsCast.parts (starts : StartsCast us) :
    ∃ type closer rest target, us = type :: closer :: rest ∧ type.kind.NamesType target ∧
      closer.kind = .closeParen := by
  rcases us with _ | ⟨type, _ | ⟨closer, rest⟩⟩
  · exact starts.elim
  · exact starts.elim
  · obtain ⟨target, found⟩ := Option.ne_none_iff_exists'.1 starts.1
    exact ⟨type, closer, rest, target, rfl, castTarget?_named found, starts.2⟩

-- What the rule of the first token opens, with how tightly it holds together.
def OpeningProgress (least : Power) (tokens : List Token) : Prop :=
  Progress (fun ts rest => ∃ layer e, Spells layer ts e ∧ Layer.prefixed.rank ≤ layer.rank ∧
    headRank rest ≤ layer.rank) (Breaks least) tokens

theorem opened_primary {ts rest : List Token} {e : Expr} (spells : Spells .primary ts e) :
    ∃ layer e, Spells layer ts e ∧ Layer.prefixed.rank ≤ layer.rank ∧
      headRank rest ≤ layer.rank :=
  ⟨.primary, e, spells, by decide, headRank_le_primary rest⟩

theorem Settled.castBefore (settled : Settled bound) (opens : t.kind = .openParen)
    (ended : Ended us) (short : us.length ≤ bound) (starts : StartsCast us) :
    OpeningProgress least (t :: us) := by
  obtain ⟨type, closer, rest, target, rfl, named, closes⟩ := starts.parts
  have operandEnded := ((ended.tail (NamesType.ne_eof named)).2.tail (by simp [closes])).2
  simp only [List.length_cons] at short
  apply Progress.after [t, type, closer]
  apply (@settled .unary _ (Nat.le_refl _) operandEnded (by omega)).mono
  · intro us bad _ _ breaks
    exact .castBefore opens named closes breaks
  · rintro ts rest ⟨e, spells, follows⟩
    exact ⟨.prefixed, .cast default target e, .castBefore opens named closes spells, by decide,
      follows⟩

theorem Settled.grouping (settled : Settled bound) (opens : t.kind = .openParen)
    (ended : Ended us) (short : us.length ≤ bound) (plain : ¬ StartsCast us) :
    OpeningProgress least (t :: us) := by
  apply Progress.after [t]
  apply (settled.before .closeParen (by decide) ended short).mono
  · rintro ts bad rest rfl breaks
    exact .grouping opens breaks fun starts => plain starts.append
  · rintro ts rest ⟨vs, e, closer, rfl, closes, spells⟩
    exact opened_primary (e := .grouping default e) (.grouping opens closes spells)

theorem cast_names {k : TokenKind} (opens : standard.opening k = some .cast) :
    ∃ target, k.NamesType target := by
  cases k with
  | integerType => exact ⟨_, .integer⟩
  | pointType => exact ⟨_, .point⟩
  | textType => exact ⟨_, .text⟩
  | stateType => exact ⟨_, .state⟩
  | _ => cases opens

theorem Settled.cast (settled : Settled bound) (opens : standard.opening t.kind = some .cast)
    (ended : Ended us) (short : us.length ≤ bound) : OpeningProgress least (t :: us) := by
  obtain ⟨target, named⟩ := cast_names opens
  obtain ⟨opener, rest, rfl⟩ := ended.exists_cons
  by_cases opened : opener.kind = .openParen
  · have operandEnded := (ended.tail (by simp [opened])).2
    simp only [List.length_cons] at short
    apply Progress.after [t, opener]
    apply (settled.before .closeParen (by decide) operandEnded (by omega)).mono
    · intro us bad _ _ breaks
      exact .castAround named opened breaks
    · rintro ts rest ⟨vs, e, closer, rfl, closes, spells⟩
      exact opened_primary (e := .cast default target e) (.castAround named opened closes spells)
  · exact .of_broken [t] (.castOpener named opened)

theorem Settled.opening (settled : Settled bound) {rule : OpeningRule}
    (opens : standard.opening t.kind = some rule) (ended : Ended (t :: us))
    (short : us.length ≤ bound) : OpeningProgress least (t :: us) := by
  obtain ⟨lexical, rest⟩ := ended.tail (opening_ne_eof opens)
  cases rule with
  | leaf =>
    obtain ⟨e, spells⟩ := spells_leaf lexical opens
    exact .of_done [t] rest (opened_primary spells)
  | signed =>
    have signed := signed_names opens
    apply Progress.after [t]
    apply (@settled .unary _ (Nat.le_refl _) rest short).mono
    · intro us bad _ _ breaks
      exact .unary signed breaks
    · rintro ts rest ⟨e, spells, follows⟩
      exact ⟨.prefixed, .unary default _ e, .unary signed spells, by decide, follows⟩
  | grouping =>
    by_cases starts : StartsCast us
    · exact settled.castBefore (grouping_openParen opens) rest short starts
    · exact settled.grouping (grouping_openParen opens) rest short starts
  | cast => exact settled.cast opens rest short
  | list =>
    have opened := list_openBracket opens
    apply Progress.after [t]
    apply (settled.itemsUntil .closeBracket (by decide) rest short).mono
    · rintro us bad _ _ ⟨breaks, filled⟩
      exact .list opened breaks filled
    · rintro ts rest ⟨vs, es, closer, rfl, closes, spells⟩
      exact opened_primary (e := .list default es) (.list opened closes spells)

theorem joining_of_rank {k : TokenKind} (binds : 0 < (standard.powerOf k).rank) :
    ∃ rule, standard.joining k = some rule := by
  cases k <;> first | exact ⟨_, rfl⟩ | exact absurd binds (by decide)

theorem Settled.joining (settled : Settled bound) (low : least.rank ≤ Power.unary.rank)
    {layer : Layer} {before : List Token} {e : Expr} (spells : Spells layer before e)
    (follows : (standard.powerOf t.kind).rank ≤ layer.rank)
    (tight : least.rank < (standard.powerOf t.kind).rank) (ended : Ended (t :: us))
    (short : us.length ≤ bound) :
    Progress (fun ts rest => ∃ joined e, Spells joined (before ++ ts) e ∧
      joined.rank = (standard.powerOf t.kind).rank ∧ headRank rest ≤ joined.rank ∧ ts ≠ [])
      (fun ts bad => Breaks least (before ++ ts) bad) (t :: us) := by
  obtain ⟨rule, joins⟩ := joining_of_rank (Nat.zero_lt_of_lt tight)
  have rest := (ended.tail (joining_ne_eof joins)).2
  cases rule with
  | binary =>
    obtain ⟨inner, op, operator, -, rank, nextLayer, below⟩ := operator_of_joining joins
    have left : Spells inner before e := spells.loosen (rank ▸ follows)
    have looser : least.layer.rank ≤ inner.rank :=
      Nat.le_trans (rank_layer low).1 (rank ▸ tight)
    have lower : (standard.powerOf t.kind).rank ≤ Power.unary.rank := rank ▸ Nat.le_of_lt below
    apply Progress.after [t]
    apply (settled lower rest short).mono
    · intro us bad _ _ breaks
      exact .operand left operator looser breaks
    · rintro ts rest ⟨r, right, stops⟩
      exact ⟨inner, .binary default op e r, .binary left operator (nextLayer ▸ right), rank.symm,
        rank ▸ stops, by simp⟩
  | call =>
    have opens := openParen_of_joining joins
    obtain rfl : layer = .primary := by
      rw [opens] at follows
      revert follows
      cases layer <;> decide
    by_cases named : ∃ callee : Token, before = [callee] ∧ callee.kind = .identifier
    · obtain ⟨callee, rfl, named⟩ := named
      apply Progress.after [t]
      apply (settled.itemsUntil .closeParen (by decide) rest short).mono
      · rintro us bad _ _ ⟨breaks, filled⟩
        exact .arguments named opens breaks filled
      · rintro ts rest ⟨vs, es, closer, rfl, closes, spells⟩
        refine ⟨.primary, .call default callee.value default es, .call named opens closes spells,
          ?_, headRank_le_primary rest, by simp⟩
        rw [opens]
        rfl
    · apply Progress.of_broken []
      rw [List.append_nil]
      refine .call spells (fun callee same named' => ?_) opens
      exact named ⟨callee, same, named'⟩

-- The loop keeps one fact: what has been read is an expression of some layer, and the next token
-- binds no tighter than that.
theorem Settled.continuation (settled : Settled bound) (low : least.rank ≤ Power.unary.rank)
    {layer : Layer} {before : List Token} {e : Expr} (loose : least.layer.rank ≤ layer.rank)
    (spells : Spells layer before e) (follows : headRank tokens ≤ layer.rank)
    (ended : Ended tokens) (short : tokens.length ≤ bound + 1) :
    Progress (fun ts rest => ∃ e, Spells least.layer (before ++ ts) e ∧
      headRank rest ≤ least.rank) (fun ts bad => Breaks least (before ++ ts) bad) tokens := by
  induction length : tokens.length using Nat.strongRecOn
    generalizing tokens layer before e with
  | ind length ih =>
    subst length
    obtain ⟨t, us, rfl⟩ := ended.exists_cons
    by_cases stops : headRank (t :: us) ≤ least.rank
    · refine .of_done [] ended ⟨e, ?_, stops⟩
      rw [List.append_nil]
      exact spells.loosen loose
    · have tight : least.rank < (standard.powerOf t.kind).rank := Nat.lt_of_not_le stops
      apply (settled.joining low spells follows tight ended (Nat.le_of_succ_le_succ short)).bind
      · intro ts bad _ _ breaks
        exact breaks
      · rintro ts rest split ended ⟨joined, e, spells, rank, follows, some⟩
        have shorter : rest.length < (t :: us).length := by
          have := List.length_pos_iff.2 some
          rw [split, List.length_append]
          omega
        have looser : least.layer.rank ≤ joined.rank :=
          Nat.le_trans (rank_layer low).1 (rank ▸ tight)
        have going := ih _ shorter looser spells follows ended (by omega) rfl
        simpa only [List.append_assoc] using going

theorem settled (bound : Nat) : Settled bound := by
  induction bound with
  | zero =>
    intro least tokens _ ended short
    obtain ⟨t, us, rfl⟩ := ended.exists_cons
    simp at short
  | succ bound ih =>
    intro least tokens low ended short
    obtain ⟨t, us, rfl⟩ := ended.exists_cons
    cases opens : standard.opening t.kind with
    | none => exact .of_broken [] (.start opens)
    | some rule =>
      apply (ih.opening opens ended (Nat.le_of_succ_le_succ short)).bind
      · intro ts bad _ _ breaks
        exact breaks
      · rintro ts rest split ended ⟨layer, e, spells, tight, follows⟩
        have loose := Nat.le_trans (rank_layer low).2 tight
        have shorter : rest.length ≤ bound + 1 := by
          rw [split, List.length_append] at short
          omega
        exact ih.continuation low loose spells follows ended shorter

end Scriptlet
