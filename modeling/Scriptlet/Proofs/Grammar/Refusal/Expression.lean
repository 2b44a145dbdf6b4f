import Scriptlet.Proofs.Grammar.Break

/-!
Where an expression breaks off, reading fails, and the fault stands at the token that breaks it,
whatever comes after that token. A token costs four steps of the budget at most: an opening bracket
of a list is read by four readers, one inside the other.
-/

namespace Scriptlet

open Parse
open Grammar (standard)

-- The fault is that a token stands where it cannot be.
def FaultCause.isUnexpected : FaultCause → Bool
  | .unexpectedToken _ | .unexpectedTokenDetailed _ _ => true
  | _ => false

namespace Parse

variable {α β : Type} {p q : Option Position} {t bad : Token} {tokens rest : List Token}
  {n m : NodeId} {s s' : ParseState} {least power : Power} {c k : Nat} {position : Position}

theorem bind_error {x : Parse α} {f : α → Parse β} {stop : Stop} (ran : x.run s = .error stop s') :
    (x >>= f).run s = .error stop s' := by
  rw [EStateM.run_bind, ran]

-- With a budget of at least `c` the step fails at this position, where a token cannot be.
def Fails (step : Nat → Parse α) (s : ParseState) (c : Nat) (position : Position) : Prop :=
  ∃ cause s', cause.isUnexpected = true ∧ Gives step s c (.error (.fault ⟨cause, position⟩) s')

namespace Fails

variable {step : Nat → Parse α} {outer : Nat → Parse β}

theorem mono (fails : Fails step s c position) (more : c ≤ k) : Fails step s k position := by
  obtain ⟨cause, last, unexpected, gives⟩ := fails
  exact ⟨cause, last, unexpected, gives.mono more⟩

theorem at_once {cause : FaultCause}
    (ran : ∀ fuel, (step (fuel + 1)).run s = .error (.fault ⟨cause, position⟩) s')
    (unexpected : cause.isUnexpected = true) : Fails step s (c + 1) position :=
  ⟨cause, s', unexpected, gives_succ fun fuel _ => ran fuel⟩

theorem first {next : Nat → α → Parse β} (fails : Fails step s c position) {s₀ : ParseState}
    (same : ∀ fuel, c ≤ fuel →
      (outer (fuel + 1)).run s₀ = (step fuel >>= next fuel).run s) :
    Fails outer s₀ (c + 1) position := by
  obtain ⟨cause, last, unexpected, gives⟩ := fails
  refine ⟨cause, last, unexpected, gives_succ fun fuel enough => ?_⟩
  rw [same fuel enough]
  exact bind_error (gives fuel enough)

theorem handed {inner : Nat → Parse β} (fails : Fails inner s c position) {s₀ : ParseState}
    (same : ∀ fuel, c ≤ fuel → (outer (fuel + 1)).run s₀ = (inner fuel).run s) :
    Fails outer s₀ (c + 1) position := by
  obtain ⟨cause, last, unexpected, gives⟩ := fails
  refine ⟨cause, last, unexpected, gives_succ fun fuel enough => ?_⟩
  rw [same fuel enough]
  exact gives fuel enough

end Fails

theorem expectOr_other {kind : TokenKind} {otherwise : Cursor → Fault} (other : t.kind ≠ kind) :
    (expectOr kind otherwise).run (place p (t :: rest) n) =
      .error (.fault (otherwise (place p (t :: rest) n).cursor)) (place p (t :: rest) n) := by
  unfold expectOr
  simp [other]

-- The step fails at the bad token, or ends before it where another token has to come next.
def Stuck (step : Nat → Parse α) (close : TokenKind) (s : ParseState) (c : Nat) (bad : Token)
    (rest : List Token) : Prop :=
  Fails step s c bad.span.start ∨
    ∃ a q m, bad.kind ≠ close ∧ Gives step s c (.ok a (place q (bad :: rest) m))

namespace Stuck

variable {step : Nat → Parse α} {close : TokenKind}

theorem mono (stuck : Stuck step close s c bad rest) (more : c ≤ k) :
    Stuck step close s k bad rest := by
  rcases stuck with fails | ⟨a, q, m, other, gives⟩
  · exact .inl (fails.mono more)
  · exact .inr ⟨a, q, m, other, gives.mono more⟩

theorem fails (stuck : Stuck step close s c bad rest) (next : Nat → α → Token → Parse β) :
    Fails (fun fuel => step fuel >>= fun a => expect close >>= next fuel a) s c bad.span.start := by
  rcases stuck with ⟨cause, last, unexpected, gives⟩ | ⟨a, q, m, other, gives⟩
  · exact ⟨cause, last, unexpected, fun fuel enough => bind_error (gives fuel enough)⟩
  · refine ⟨.unexpectedToken bad.value, place q (bad :: rest) m, rfl, fun fuel enough => ?_⟩
    rw [bind_run (gives fuel enough)]
    exact bind_error (expectOr_other other)

theorem first {outer : Nat → Parse β} {next : Nat → α → Token → Parse β}
    (stuck : Stuck step close s c bad rest) {s₀ : ParseState}
    (same : ∀ fuel, c ≤ fuel → (outer (fuel + 1)).run s₀ =
      (step fuel >>= fun a => expect close >>= next fuel a).run s) :
    Fails outer s₀ (c + 1) bad.span.start :=
  (stuck.fails next).handed same

theorem built {outer : Nat → Parse β} (build : α → β) (stuck : Stuck step close s c bad rest)
    {s₀ : ParseState} (same : ∀ fuel, c ≤ fuel → (outer (fuel + 1)).run s₀ =
      (step fuel >>= fun a => pure (build a)).run s) : Stuck outer close s₀ (c + 1) bad rest := by
  rcases stuck with fails | ⟨a, q, m, other, gives⟩
  · exact .inl (fails.first same)
  · refine .inr ⟨build a, q, m, other, gives_succ fun fuel enough => ?_⟩
    rw [same fuel enough, bind_run (gives fuel enough)]
    rfl

end Stuck

theorem expression_shut (shut : standard.opening t.kind = none) :
    Fails (expression standard · least) (place p (t :: rest) n) (c + 1) t.span.start := by
  apply Fails.at_once
  · intro fuel
    simp only [expression]
    rw [bind_run current_run, place_current, shut]
    rfl
  · rfl

theorem expression_fails {rule : OpeningRule} (opens : standard.opening t.kind = some rule)
    (opened : Fails (opening standard · rule) (place p (t :: tokens) n) c position) :
    Fails (expression standard · least) (place p (t :: tokens) n) (c + 1) position := by
  apply opened.first
  intro fuel _
  simp only [expression]
  rw [bind_run current_run, place_current, opens]

theorem continuation_fails {rule : JoiningRule} {left : Expr}
    (joins : standard.joining t.kind = some rule)
    (tight : least.rank < (standard.powerOf t.kind).rank)
    (joined : Fails (joining standard · rule left (standard.powerOf t.kind))
      (place p (t :: tokens) n) c position) :
    Fails (continuation standard · least left) (place p (t :: tokens) n) (c + 1) position := by
  apply joined.first
  intro fuel _
  simp only [continuation]
  rw [bind_run current_run, place_current, if_pos tight, joins]

theorem signed_fails (more : tokens ≠ [])
    (operand :
      Fails (expression standard · .unary) (place (some t.span.stop) tokens n) c position) :
    Fails (opening standard · .signed) (place p (t :: tokens) n) (c + 1) position := by
  apply operand.first
  intro fuel _
  simp only [opening]
  rw [bind_run (advance_run more)]

theorem castBefore_fails {opener type closer : Token} {target : CastTarget}
    (named : type.kind.NamesType target) (closes : closer.kind = .closeParen) (more : tokens ≠ [])
    (operand : Fails (expression standard · .unary) (place (some closer.span.stop) tokens n) c
      position) :
    Fails (opening standard · .grouping) (place p (opener :: type :: closer :: tokens) n) (c + 1)
      position := by
  have found : prefixCast? (place (some opener.span.stop) (type :: closer :: tokens) n).cursor =
      some target := (if_pos closes).trans (NamesType.opening named).2
  apply operand.first
  intro fuel _
  simp only [opening]
  rw [bind_run (advance_run (by simp)), bind_run cursor_run, found]
  dsimp only
  rw [bind_run (advance_run (by simp)), bind_run (expect_run closes more)]

theorem grouping_fails {opener : Token} (more : tokens ≠ [])
    (plain : prefixCast? (place (some opener.span.stop) tokens n).cursor = none)
    (inner : Stuck (expression standard · .default) .closeParen
      (place (some opener.span.stop) tokens n) c bad rest) :
    Fails (opening standard · .grouping) (place p (opener :: tokens) n) (c + 1) bad.span.start := by
  apply inner.first
  intro fuel _
  simp only [opening]
  rw [bind_run (advance_run more), bind_run cursor_run, plain]

theorem castOpener_fails {type : Token} {target : CastTarget} (named : type.kind.NamesType target)
    (other : t.kind ≠ .openParen) :
    Fails (opening standard · .cast) (place p (type :: t :: rest) n) (c + 1) t.span.start := by
  apply Fails.at_once
  · intro fuel
    simp only [opening]
    rw [bind_run (advance_run (by simp)), (NamesType.opening named).2]
    exact bind_error (expectOr_other other)
  · rfl

theorem castAround_fails {type opener : Token} {target : CastTarget}
    (named : type.kind.NamesType target) (opens : opener.kind = .openParen) (more : tokens ≠ [])
    (operand : Stuck (expression standard · .default) .closeParen
      (place (some opener.span.stop) tokens n) c bad rest) :
    Fails (opening standard · .cast) (place p (type :: opener :: tokens) n) (c + 1)
      bad.span.start := by
  apply operand.first
  intro fuel _
  simp only [opening]
  rw [bind_run (advance_run (by simp)), (NamesType.opening named).2]
  dsimp only
  rw [bind_run (expectNamed_run opens more)]

theorem list_fails {opener : Token} (more : tokens ≠ [])
    (items : Stuck (itemsUntil standard · .closeBracket) .closeBracket
      (place (some opener.span.stop) tokens n) c bad rest) :
    Fails (opening standard · .list) (place p (opener :: tokens) n) (c + 1) bad.span.start := by
  apply items.first
  intro fuel _
  simp only [opening]
  rw [bind_run (advance_run more)]

theorem call_fails {opener : Token} {callee : Node} {name : String} (more : tokens ≠ [])
    (items : Stuck (itemsUntil standard · .closeParen) .closeParen
      (place (some opener.span.stop) tokens n) c bad rest) :
    Fails (joining standard · .call (.identifier callee name) power)
      (place p (opener :: tokens) n) (c + 1) bad.span.start := by
  apply items.first
  intro fuel _
  simp only [joining]
  rw [bind_run (advance_run more)]

theorem uncallable_fails {left : Expr} (unnamed : ∀ node name, left ≠ .identifier node name) :
    Fails (joining standard · .call left power) (place p (t :: rest) n) (c + 1) t.span.start := by
  apply Fails.at_once
  · intro fuel
    cases left with
    | identifier node name => exact absurd rfl (unnamed node name)
    | _ => rfl
  · rfl

theorem binary_fails {op : BinaryOp} {left : Expr} (found : binaryOp? t.kind = some op)
    (more : tokens ≠ [])
    (right : Fails (expression standard · power) (place (some t.span.stop) tokens n) c position) :
    Fails (joining standard · .binary left power) (place p (t :: tokens) n) (c + 1) position := by
  apply right.first
  intro fuel _
  simp only [joining]
  rw [bind_run kind_run, place_kind, found]
  dsimp only
  rw [bind_run (advance_run more)]

theorem items_fails
    (item : Fails (expression standard · .default) (place p tokens n) c position) :
    Fails (items standard ·) (place p tokens n) (c + 1) position := by
  apply item.first
  intro fuel _
  simp only [items]
  rfl

theorem items_stuck {comma : Token} {middle : List Token} {e : Expr} {close : TokenKind}
    (separated : comma.kind = .comma) (more : middle ≠ [])
    (reads : Gives (expression standard · .default) (place p tokens n) c
      (.ok e (place q (comma :: middle) m)))
    (others : Stuck (items standard ·) close (place (some comma.span.stop) middle m) c bad rest) :
    Stuck (items standard ·) close (place p tokens n) (c + 1) bad rest := by
  apply others.built (e :: ·)
  intro fuel enough
  simp only [items]
  rw [bind_run (reads fuel enough), bind_run (accept_run separated more)]
  rfl

theorem itemsUntil_stuck {close : TokenKind} (other : t.kind ≠ close)
    (reads : Stuck (items standard ·) close (place p (t :: tokens) n) c bad rest) :
    Stuck (itemsUntil standard · close) close (place p (t :: tokens) n) (c + 1) bad rest := by
  rcases reads with fails | ⟨es, last, k, missed, gives⟩
  · left
    apply fails.handed
    intro fuel _
    simp only [itemsUntil]
    rw [bind_run kind_run, place_kind, if_neg other]
  · exact .inr ⟨es, last, k, missed, itemsUntil_gives other gives⟩

end Parse

theorem not_spells_nil {layer : Layer} {e : Expr} : ¬ Spells layer [] e := by
  intro spells
  obtain ⟨_, _, reads, -⟩ := spells.reads (by simp [AllLexical]) 0
  obtain ⟨_, _, _, same, -⟩ := reads.starts
  cases same

variable {least : Power} {layer : Layer} {ts us : List Token} {t bad opener : Token}
  {close : TokenKind} {e : Expr} {n : NodeId}

theorem Breaks.shut (breaks : Breaks least [] bad) : standard.opening bad.kind = none := by
  generalize empty : [] = ts at breaks
  cases breaks with
  | start shut => exact shut
  | operand => simp at empty
  | call left => exact absurd (empty ▸ left) not_spells_nil
  | _ => cases empty

theorem BreaksBefore.shut (breaks : BreaksBefore close [] bad) :
    standard.opening bad.kind = none := by
  cases breaks with
  | value value => exact value.shut
  | unclosed value => exact absurd value not_spells_nil

theorem castTarget?_shut {k : TokenKind} (shut : standard.opening k = none) :
    castTarget? k = none := by
  cases k <;> first | rfl | cases shut

theorem prefixCast?_pair {p : Option Position} {type closer : Token} {rest later : List Token}
    (plain : ¬ StartsCast (type :: closer :: rest)) :
    prefixCast? (place p (type :: closer :: later) n).cursor = none := by
  unfold prefixCast?
  split
  · rename_i closes
    cases typed : castTarget? type.kind with
    | none => exact typed
    | some target => exact absurd ⟨by simp [typed], closes⟩ plain
  · rfl

-- The look at two tokens sees none that comes after the bad one.
theorem prefixCast?_plain {p : Option Position} {rest : List Token}
    (breaks : BreaksBefore close us bad) (plain : ¬ StartsCast (us ++ [bad])) :
    prefixCast? (place p (us ++ bad :: rest) n).cursor = none := by
  rcases us with _ | ⟨u, _ | ⟨v, us⟩⟩
  · have untyped := castTarget?_shut breaks.shut
    simp [prefixCast?, place, Cursor.kind, untyped]
  · exact prefixCast?_pair plain
  · exact prefixCast?_pair plain

-- Reading an expression fails at the bad token.
def Refused (least : Power) (ts : List Token) (bad : Token) : Prop :=
  ∀ ⦃p rest n⦄, least.rank ≤ Power.unary.rank → Closed (bad :: rest) →
    Fails (expression standard · least) (place p (ts ++ bad :: rest) n) (4 * ts.length + 2)
      bad.span.start

def RefusedBefore (close : TokenKind) (ts : List Token) (bad : Token) : Prop :=
  ∀ ⦃p rest n⦄, Closed (bad :: rest) →
    Stuck (expression standard · .default) close (place p (ts ++ bad :: rest) n)
      (4 * ts.length + 2) bad rest

def RefusedItems (close : TokenKind) (ts : List Token) (bad : Token) : Prop :=
  ∀ ⦃p rest n⦄, Closed (bad :: rest) →
    Stuck (items standard ·) close (place p (ts ++ bad :: rest) n) (4 * ts.length + 3) bad rest

theorem Given.fails {m : NodeId} {p : Option Position} {rest : List Token} {c : Nat}
    {position : Position} (given : Given layer n ts e m) (fits : Fits least layer rest)
    (continues :
      Fails (continuation standard · least e) (place (lastStop p ts) rest m) c position) :
    Fails (expression standard · least) (place p (ts ++ rest) n) (c + 3 * ts.length) position := by
  obtain ⟨cause, last, unexpected, gives⟩ := continues
  exact ⟨cause, last, unexpected, given fits gives⟩

theorem refused_operand {sign : Token} {op : BinaryOp} {l : Expr} (left : Spells layer ts l)
    (lexical : AllLexical ts) (operator : layer.operator? sign.kind = some op)
    (loose : least.layer.rank ≤ layer.rank) (right : Refused (standard.powerOf sign.kind) us bad) :
    Refused least (ts ++ sign :: us) bad := by
  intro p rest n low closed
  obtain ⟨joins, found, rank, -, below⟩ := operator_joining operator
  obtain ⟨l', m, reads, -⟩ := left.reads lexical n
  have rightFails := right (p := some sign.span.stop) (n := m) (rank ▸ Nat.le_of_lt below) closed
  have tight : least.rank < (standard.powerOf sign.kind).rank := rank ▸ rank_lt_of_layer loose below
  have fits : Fits least layer (sign :: (us ++ bad :: rest)) :=
    ⟨low, loose, closed.append.cons, Nat.le_of_eq rank⟩
  have joined : Fails (joining standard · .binary l' (standard.powerOf sign.kind))
      (place (lastStop p ts) (sign :: (us ++ bad :: rest)) m) _ bad.span.start :=
    binary_fails found (by simp) rightFails
  have shape : ts ++ sign :: us ++ bad :: rest = ts ++ sign :: (us ++ bad :: rest) := by simp
  rw [shape]
  exact (reads.given.fails fits (continuation_fails joins tight joined)).mono
    (by simp only [List.length_append, List.length_cons]; omega)

theorem Reads.unnamed {m : NodeId} (reads : Reads .primary n ts e m)
    (unnamed : ∀ callee : Token, ts = [callee] → callee.kind ≠ .identifier) :
    ∀ node name, e ≠ .identifier node name := by
  intro node name same
  cases reads with
  | tighter loose => exact loose rfl
  | binary _ operator => cases operator
  | name named => exact unnamed _ rfl named
  | _ => cases same

theorem refused_call (left : Spells .primary ts e) (lexical : AllLexical ts)
    (unnamed : ∀ callee : Token, ts = [callee] → callee.kind ≠ .identifier)
    (opens : bad.kind = .openParen) : Refused least ts bad := by
  intro p rest n low closed
  obtain ⟨e', m, reads, -⟩ := left.reads lexical n
  obtain ⟨joins, tight⟩ := openParen_joins opens low
  have fits : Fits least .primary (bad :: rest) :=
    ⟨low, least.primary_rank, closed, headRank_le_primary _⟩
  have joined : Fails (joining standard · .call e' (standard.powerOf bad.kind))
      (place (lastStop p ts) (bad :: rest) m) 1 bad.span.start :=
    uncallable_fails (reads.unnamed unnamed)
  exact (reads.given.fails fits (continuation_fails joins tight joined)).mono (by omega)

theorem cons_of_headD (us rest : List Token) (bad : Token) :
    us ++ bad :: rest = us.headD bad :: (us ++ bad :: rest).tail := by
  cases us <;> rfl

theorem place_headD {p : Option Position} {rest : List Token} :
    (place p (us ++ bad :: rest) n).cursor.kind = (us.headD bad).kind := by
  rw [cons_of_headD us rest bad]
  rfl

theorem RefusedItems.until (items : RefusedItems close us bad)
    (filled : (us.headD bad).kind ≠ close) {p : Option Position} {rest : List Token}
    (closed : Closed (bad :: rest)) :
    Stuck (itemsUntil standard · close) close (place p (us ++ bad :: rest) n) (4 * us.length + 4)
      bad rest := by
  have reads := items (p := p) (n := n) closed
  rw [cons_of_headD us rest bad] at reads ⊢
  exact itemsUntil_stuck filled reads

theorem refused_arguments {callee : Token} (named : callee.kind = .identifier)
    (opens : opener.kind = .openParen) (items : RefusedItems .closeParen us bad)
    (filled : (us.headD bad).kind ≠ .closeParen) : Refused least (callee :: opener :: us) bad := by
  intro p rest n low closed
  have given : Given .primary n [callee] _ _ := given_leaf (leafOf_identifier named)
  obtain ⟨joins, tight⟩ := openParen_joins opens low
  have fits : Fits least .primary (opener :: (us ++ bad :: rest)) :=
    ⟨low, least.primary_rank, closed.append.cons, headRank_le_primary _⟩
  have joined : Fails (joining standard · .call (.identifier ⟨n, callee.span⟩ callee.value)
      (standard.powerOf opener.kind))
      (place (lastStop p [callee]) (opener :: (us ++ bad :: rest)) (n + 1)) _ bad.span.start :=
    call_fails (by simp) (items.until filled closed)
  exact (given.fails fits (continuation_fails joins tight joined)).mono
    (by simp only [List.length_cons, List.length_nil]; omega)

theorem refused_opening {rule : OpeningRule} {c : Nat}
    (opens : standard.opening t.kind = some rule) (within : c ≤ 4 * us.length + 5)
    (opened : ∀ {p rest n}, Closed (bad :: rest) →
      Fails (opening standard · rule) (place p (t :: (us ++ bad :: rest)) n) c bad.span.start) :
    Refused least (t :: us) bad := by
  intro p rest n _ closed
  exact (expression_fails opens (opened closed)).mono (by simp only [List.length_cons]; omega)

theorem refused_unary {op : UnaryOp} (signed : t.kind.NamesSign op)
    (operand : Refused .unary us bad) : Refused least (t :: us) bad := by
  apply refused_opening (NamesSign.opening signed).1 (Nat.le_refl _)
  intro p rest n closed
  exact (signed_fails (by simp) (operand (Nat.le_refl _) closed)).mono (by omega)

theorem refused_castBefore {type closer : Token} {target : CastTarget}
    (opens : opener.kind = .openParen) (named : type.kind.NamesType target)
    (closes : closer.kind = .closeParen) (operand : Refused .unary us bad) :
    Refused least (opener :: type :: closer :: us) bad := by
  have opening : standard.opening opener.kind = some .grouping := by rw [opens]; rfl
  apply refused_opening opening (Nat.le_refl _)
  intro p rest n closed
  exact (castBefore_fails named closes (by simp) (operand (Nat.le_refl _) closed)).mono
    (by simp only [List.length_cons]; omega)

theorem refused_grouping (opens : opener.kind = .openParen)
    (breaks : BreaksBefore .closeParen us bad) (inner : RefusedBefore .closeParen us bad)
    (plain : ¬ StartsCast (us ++ [bad])) : Refused least (opener :: us) bad := by
  have opening : standard.opening opener.kind = some .grouping := by rw [opens]; rfl
  apply refused_opening opening (Nat.le_refl _)
  intro p rest n closed
  exact (grouping_fails (by simp) (prefixCast?_plain breaks plain) (inner closed)).mono (by omega)

theorem refused_castOpener {type : Token} {target : CastTarget}
    (named : type.kind.NamesType target) (other : bad.kind ≠ .openParen) :
    Refused least [type] bad := by
  apply refused_opening (NamesType.opening named).1 (Nat.le_refl _)
  intro p rest n _
  exact castOpener_fails named other

theorem refused_castAround {type : Token} {target : CastTarget}
    (named : type.kind.NamesType target) (opens : opener.kind = .openParen)
    (operand : RefusedBefore .closeParen us bad) : Refused least (type :: opener :: us) bad := by
  apply refused_opening (NamesType.opening named).1 (Nat.le_refl _)
  intro p rest n closed
  exact (castAround_fails named opens (by simp) (operand closed)).mono
    (by simp only [List.length_cons]; omega)

theorem refused_list (opens : opener.kind = .openBracket)
    (items : RefusedItems .closeBracket us bad) (filled : (us.headD bad).kind ≠ .closeBracket) :
    Refused least (opener :: us) bad := by
  have opening : standard.opening opener.kind = some .list := by rw [opens]; rfl
  apply refused_opening opening (Nat.le_refl _)
  intro p rest n closed
  exact list_fails (by simp) (items.until filled closed)

theorem refusedBefore_unclosed (value : Spells .disjunction ts e) (lexical : AllLexical ts)
    (loose : bad.Loose) (other : bad.kind ≠ close) : RefusedBefore close ts bad := by
  intro p rest n closed
  obtain ⟨e', m, reads, -⟩ := value.reads lexical n
  exact .inr ⟨e', _, m, other, (reads.given.inside closed loose).mono (by omega)⟩

theorem refusedItems_unclosed (item : Spells .disjunction ts e) (lexical : AllLexical ts)
    (loose : bad.Loose) (separate : bad.kind ≠ .comma) (other : bad.kind ≠ close) :
    RefusedItems close ts bad := by
  intro p rest n closed
  obtain ⟨e', m, reads, -⟩ := item.reads lexical n
  have gives := items_last separate (reads.given.inside (p := p) closed loose)
  exact .inr ⟨[e'], _, m, other, gives.mono (by omega)⟩

theorem refusedItems_more {comma : Token} (item : Spells .disjunction ts e)
    (lexical : AllLexical ts) (separated : comma.kind = .comma)
    (others : RefusedItems close us bad) : RefusedItems close (ts ++ comma :: us) bad := by
  intro p rest n closed
  obtain ⟨e', m, reads, -⟩ := item.reads lexical n
  have loose : comma.Loose := by
    rw [Token.Loose, separated]
    rfl
  have between : Closed (comma :: (us ++ bad :: rest)) := closed.append.cons
  have first := (reads.given.inside (p := p) between loose).mono
    (show 1 + 3 * ts.length ≤ 4 * ts.length + 4 * us.length + 3 by omega)
  have following := (others (p := some comma.span.stop) (n := m) closed).mono
    (show 4 * us.length + 3 ≤ 4 * ts.length + 4 * us.length + 3 by omega)
  have shape : ts ++ comma :: us ++ bad :: rest = ts ++ comma :: (us ++ bad :: rest) := by simp
  rw [shape]
  exact (items_stuck separated (by simp) first following).mono
    (by simp only [List.length_append, List.length_cons]; omega)

mutual

theorem Breaks.refused : ∀ {least ts bad}, Breaks least ts bad → AllLexical ts →
    Refused least ts bad
  | _, _, _, .start shut, _ => fun _ _ _ _ _ => expression_shut shut
  | _, _, _, .operand left operator loose right, lexical =>
    refused_operand left lexical.append.1 operator loose (right.refused lexical.append.2.cons.2)
  | _, _, _, .call left unnamed opens, lexical => refused_call left lexical unnamed opens
  | _, _, _, .arguments named opens items filled, lexical =>
    refused_arguments named opens (items.refused lexical.cons.2.cons.2) filled
  | _, _, _, .unary signed operand, lexical => refused_unary signed (operand.refused lexical.cons.2)
  | _, _, _, .castBefore opens named closes operand, lexical =>
    refused_castBefore opens named closes (operand.refused lexical.cons.2.cons.2.cons.2)
  | _, _, _, .grouping opens inner plain, lexical =>
    refused_grouping opens inner (inner.refused lexical.cons.2) plain
  | _, _, _, .castOpener named other, _ => refused_castOpener named other
  | _, _, _, .castAround named opens operand, lexical =>
    refused_castAround named opens (operand.refused lexical.cons.2.cons.2)
  | _, _, _, .list opens items filled, lexical =>
    refused_list opens (items.refused lexical.cons.2) filled

theorem BreaksBefore.refused : ∀ {close ts bad}, BreaksBefore close ts bad → AllLexical ts →
    RefusedBefore close ts bad
  | _, _, _, .value value, lexical => fun _ _ _ closed =>
    .inl (value.refused lexical (by decide) closed)
  | _, _, _, .unclosed value loose other, lexical =>
    refusedBefore_unclosed value lexical loose other

theorem BreaksItems.refused : ∀ {close ts bad}, BreaksItems close ts bad → AllLexical ts →
    RefusedItems close ts bad
  | _, _, _, .item item, lexical => fun _ _ _ closed =>
    .inl (items_fails (item.refused lexical (by decide) closed))
  | _, _, _, .unclosed item loose separate other, lexical =>
    refusedItems_unclosed item lexical loose separate other
  | _, _, _, .more item separated rest, lexical =>
    refusedItems_more item lexical.append.1 separated (rest.refused lexical.append.2.cons.2)

end

end Scriptlet
