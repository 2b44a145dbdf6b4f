import Scriptlet.Proofs.Grammar.Reading

/-!
Whatever the parser accepts is in the grammar. The loop that joins operators keeps one fact about
what it has read so far: it is an expression of some layer, and the next token binds no tighter
than that layer.
-/

namespace Scriptlet.Parse

open Grammar (standard)

-- How tightly the first of these tokens binds.
def headRank : List Token → Nat
  | [] => 0
  | t :: _ => (standard.powerOf t.kind).rank

theorem operator_of_joining {k : TokenKind} (joins : standard.joining k = some .binary) :
    ∃ (layer : Layer) (op : BinaryOp), layer.operator? k = some op ∧ binaryOp? k = some op ∧
      (standard.powerOf k).rank = layer.rank ∧ (standard.powerOf k).layer = layer.next ∧
      layer.rank < Layer.prefixed.rank := by
  cases k with
  | or => exact ⟨.disjunction, _, rfl, rfl, rfl, rfl, by decide⟩
  | and => exact ⟨.conjunction, _, rfl, rfl, rfl, rfl, by decide⟩
  | equals | notEquals => exact ⟨.equality, _, rfl, rfl, rfl, rfl, by decide⟩
  | less | lessEquals | greater | greaterEquals =>
    exact ⟨.relation, _, rfl, rfl, rfl, rfl, by decide⟩
  | plus | dash => exact ⟨.sum, _, rfl, rfl, rfl, rfl, by decide⟩
  | star | slash | percent => exact ⟨.product, _, rfl, rfl, rfl, rfl, by decide⟩
  | _ => cases joins

theorem openParen_of_joining {k : TokenKind} (joins : standard.joining k = some .call) :
    k = .openParen := by
  cases k <;> first | rfl | cases joins

theorem joining_ne_eof {k : TokenKind} {rule : JoiningRule}
    (joins : standard.joining k = some rule) :
    k ≠ .eof := by
  rintro rfl
  cases joins

theorem rank_le_primary (k : TokenKind) : (standard.powerOf k).rank ≤ Layer.primary.rank := by
  cases k <;> decide

theorem headRank_le_primary (tokens : List Token) : headRank tokens ≤ Layer.primary.rank := by
  cases tokens with
  | nil => exact Nat.zero_le _
  | cons t rest => exact rank_le_primary t.kind

theorem rank_layer {least : Power} (low : least.rank ≤ Power.unary.rank) :
    least.layer.rank ≤ least.rank + 1 ∧ least.layer.rank ≤ Layer.prefixed.rank := by
  revert low
  cases least <;> decide

theorem leafOf_ok {token : Token} {build : Node → Expr} (built : leafOf token = .ok build) :
    (token.kind = .identifier ∧ build = fun node => .identifier node token.value) ∨
      ∃ value, build = fun node => .literal node value := by
  unfold leafOf at built
  dsimp only at built
  split at built
  case h_8 named => cases built; exact .inl ⟨named, rfl⟩
  case h_9 => cases built
  case h_5 | h_6 | h_7 => cases built; exact .inr ⟨_, rfl⟩
  all_goals
    split at built
    · cases built; exact .inr ⟨_, rfl⟩
    · cases built

theorem reads_leaf {token : Token} {build : Node → Expr} (built : leafOf token = .ok build)
    (n : NodeId) : Reads .primary n [token] (build ⟨n, token.span⟩) (n + 1) := by
  rcases leafOf_ok built with ⟨named, rfl⟩ | ⟨value, rfl⟩
  · exact .name named
  · exact .literal built

theorem signed_names {k : TokenKind} (opens : standard.opening k = some .signed) :
    k.NamesSign (if k = .not then .not else .negate) := by
  cases k <;> first | constructor | cases opens

theorem grouping_openParen {k : TokenKind} (opens : standard.opening k = some .grouping) :
    k = .openParen := by
  cases k <;> first | rfl | cases opens

theorem list_openBracket {k : TokenKind} (opens : standard.opening k = some .list) :
    k = .openBracket := by
  cases k <;> first | rfl | cases opens

theorem castTarget?_named {k : TokenKind} {target : CastTarget}
    (found : castTarget? k = some target) : k.NamesType target := by
  unfold castTarget? at found
  split at found <;> cases found <;> constructor

theorem NamesType.ne_eof {k : TokenKind} {target : CastTarget} (named : k.NamesType target) :
    k ≠ .eof := by
  cases named <;> decide

-- A cast in front of its operand shows by the two tokens after the opening parenthesis.
theorem prefixCast?_tokens {p : Option Position} {tokens : List Token} {n : NodeId}
    {target : CastTarget} (closed : Closed tokens)
    (found : prefixCast? (place p tokens n).cursor = some target) :
    ∃ type closer rest, tokens = type :: closer :: rest ∧ type.kind.NamesType target ∧
      closer.kind = .closeParen := by
  match tokens, closed.ne_nil with
  | type :: rest, _ =>
    unfold prefixCast? at found
    split at found
    · rename_i closes
      have named := castTarget?_named found
      have more := (closed.tail (NamesType.ne_eof named)).ne_nil
      obtain ⟨closer, rest, rfl⟩ := List.exists_cons_of_ne_nil more
      exact ⟨type, closer, rest, rfl, named, closes⟩
    · cases found

-- The tokens `ts` have been passed, and the rest is still closed.
structure Passed (p : Option Position) (tokens ts : List Token) (s : ParseState)
    (rest : List Token) (m : NodeId) : Prop where
  split : tokens = ts ++ rest
  closed : Closed rest
  state : s = place (lastStop p ts) rest m

-- What the six mutually recursive readers promise when they succeed within a budget.
structure ReadsWithin (fuel : Nat) : Prop where
  expression : ∀ {least p tokens n e s}, least.rank ≤ Power.unary.rank → Closed tokens →
    (expression standard fuel least).run (place p tokens n) = .ok e s →
    ∃ ts rest m, Passed p tokens ts s rest m ∧ Reads least.layer n ts e m ∧
      headRank rest ≤ least.rank
  continuation : ∀ {least left layer p tokens start before n e s}, least.rank ≤ Power.unary.rank →
    least.layer.rank ≤ layer.rank → Reads layer start before left n →
    headRank tokens ≤ layer.rank → Closed tokens →
    (continuation standard fuel least left).run (place p tokens n) = .ok e s →
    ∃ ts rest m, Passed p tokens ts s rest m ∧ Reads least.layer start (before ++ ts) e m ∧
      headRank rest ≤ least.rank
  opening : ∀ {rule p t tokens n e s}, standard.opening t.kind = some rule →
    Closed (t :: tokens) → (opening standard fuel rule).run (place p (t :: tokens) n) = .ok e s →
    ∃ layer ts rest m, Passed p (t :: tokens) ts s rest m ∧ Reads layer n ts e m ∧
      Layer.prefixed.rank ≤ layer.rank ∧ headRank rest ≤ layer.rank
  joining : ∀ {rule left layer p t tokens start before n e s},
    standard.joining t.kind = some rule → Reads layer start before left n →
    (standard.powerOf t.kind).rank ≤ layer.rank → Closed (t :: tokens) →
    (joining standard fuel rule left (standard.powerOf t.kind)).run (place p (t :: tokens) n) =
      .ok e s →
    ∃ joined ts rest m, Passed p (t :: tokens) ts s rest m ∧ Reads joined start (before ++ ts) e m ∧
      joined.rank = (standard.powerOf t.kind).rank ∧ headRank rest ≤ joined.rank
  itemsUntil : ∀ {close p tokens n es s}, Closed tokens →
    (itemsUntil standard fuel close).run (place p tokens n) = .ok es s →
    ∃ ts rest m, Passed p tokens ts s rest m ∧ ReadsItems n ts es m
  items : ∀ {p tokens n es s}, Closed tokens →
    (items standard fuel).run (place p tokens n) = .ok es s →
    ∃ ts rest m, Passed p tokens ts s rest m ∧ ReadsItems n ts es m ∧ es ≠ []

variable {p : Option Position} {t : Token} {tokens ts rest before : List Token} {n m start : NodeId}
  {e left : Expr} {es : List Expr} {s : ParseState} {fuel : Nat} {least : Power} {layer : Layer}

theorem expression_reads (within : ReadsWithin fuel) (low : least.rank ≤ Power.unary.rank)
    (closed : Closed tokens)
    (ran : (Parse.expression standard (fuel + 1) least).run (place p tokens n) = .ok e s) :
    ∃ ts rest m, Passed p tokens ts s rest m ∧ Reads least.layer n ts e m ∧
      headRank rest ≤ least.rank := by
  match tokens, closed.ne_nil with
  | t :: tokens, _ =>
    simp only [Parse.expression, EStateM.run_bind, current_run, place_current] at ran
    split at ran
    · simp at ran
    · rename_i rule opens
      obtain ⟨left, middle, opened, continued⟩ := bind_ok.1 ran
      obtain ⟨layer, ts, rest, m, passed, reads, tight, follows⟩ :=
        within.opening opens closed opened
      obtain ⟨split, restClosed, rfl⟩ := passed
      have loose := Nat.le_trans (rank_layer low).2 tight
      obtain ⟨us, last, k, ⟨rfl, lastClosed, rfl⟩, reads, stops⟩ :=
        within.continuation low loose reads follows restClosed continued
      exact ⟨ts ++ us, last, k, ⟨by simp [split], lastClosed, by simp⟩, reads, stops⟩

theorem continuation_reads (within : ReadsWithin fuel) (low : least.rank ≤ Power.unary.rank)
    (loose : least.layer.rank ≤ layer.rank) (reads : Reads layer start before left n)
    (follows : headRank tokens ≤ layer.rank) (closed : Closed tokens)
    (ran : (Parse.continuation standard (fuel + 1) least left).run (place p tokens n) = .ok e s) :
    ∃ ts rest m, Passed p tokens ts s rest m ∧ Reads least.layer start (before ++ ts) e m ∧
      headRank rest ≤ least.rank := by
  match tokens, closed.ne_nil with
  | t :: tokens, _ =>
    simp only [Parse.continuation, EStateM.run_bind, current_run, place_current] at ran
    split at ran
    · rename_i binds
      split at ran
      · simp at ran
      · rename_i rule joins
        obtain ⟨whole, middle, joined, continued⟩ := bind_ok.1 ran
        obtain ⟨inner, ts, rest, m, ⟨split, restClosed, rfl⟩, reads, rank, follows⟩ :=
          within.joining joins reads follows closed joined
        have loose : least.layer.rank ≤ inner.rank := by
          have := (rank_layer low).1
          omega
        obtain ⟨us, last, k, ⟨rfl, lastClosed, rfl⟩, reads, stops⟩ :=
          within.continuation low loose reads follows restClosed continued
        refine ⟨ts ++ us, last, k, ⟨by simp [split], lastClosed, by simp⟩, ?_, stops⟩
        simpa using reads
    · rename_i binds
      cases ran
      refine ⟨[], t :: tokens, n, ⟨rfl, closed, rfl⟩, ?_, by simpa [headRank] using binds⟩
      simpa using reads.loosen loose

theorem opening_ne_eof {rule : OpeningRule} (opens : standard.opening t.kind = some rule) :
    t.kind ≠ .eof := by
  intro ended
  rw [ended] at opens
  cases opens

theorem leaf_reads (closed : Closed (t :: tokens)) (more : t.kind ≠ .eof)
    (ran : leaf.run (place p (t :: tokens) n) = .ok e s) :
    ∃ m, Passed p (t :: tokens) [t] s tokens m ∧ Reads .primary n [t] e m := by
  simp only [leaf, EStateM.run_bind, current_run, place_current] at ran
  split at ran
  · simp at ran
  · rename_i build built
    obtain ⟨taken, middle, advanced, made⟩ := bind_ok.1 ran
    obtain ⟨rfl, rfl, restClosed⟩ := advance_ok closed more advanced
    rw [bind_run newNode_run] at made
    cases made
    exact ⟨n + 1, ⟨rfl, restClosed, rfl⟩, reads_leaf built n⟩

theorem opening_reads (within : ReadsWithin fuel) {rule : OpeningRule}
    (opens : standard.opening t.kind = some rule) (closed : Closed (t :: tokens))
    (ran : (Parse.opening standard (fuel + 1) rule).run (place p (t :: tokens) n) = .ok e s) :
    ∃ layer ts rest m, Passed p (t :: tokens) ts s rest m ∧ Reads layer n ts e m ∧
      Layer.prefixed.rank ≤ layer.rank ∧ headRank rest ≤ layer.rank := by
  have more := opening_ne_eof opens
  cases rule with
  | leaf =>
    obtain ⟨m, passed, reads⟩ := leaf_reads closed more ran
    exact ⟨.primary, [t], tokens, m, passed, reads, by decide, headRank_le_primary _⟩
  | signed =>
    obtain ⟨sign, _, advanced, ran⟩ := bind_ok.1 ran
    obtain ⟨rfl, rfl, operandClosed⟩ := advance_ok closed more advanced
    obtain ⟨operand, _, read, ran⟩ := bind_ok.1 ran
    obtain ⟨ts, rest, m, ⟨rfl, restClosed, rfl⟩, reads, follows⟩ :=
      within.expression (Nat.le_refl _) operandClosed read
    rw [bind_run newNode_run] at ran
    cases ran
    refine ⟨.prefixed, sign :: ts, rest, m + 1, ⟨rfl, restClosed, rfl⟩, ?_, by decide, follows⟩
    exact .unary (signed_names opens) reads
  | grouping =>
    have opened := grouping_openParen opens
    obtain ⟨opener, _, advanced, ran⟩ := bind_ok.1 ran
    obtain ⟨rfl, rfl, innerClosed⟩ := advance_ok closed more advanced
    simp only [EStateM.run_bind, cursor_run] at ran
    split at ran
    · rename_i target found
      obtain ⟨type, closer, tokens, rfl, named, closes⟩ := prefixCast?_tokens innerClosed found
      have typeClosed := innerClosed.tail (NamesType.ne_eof named)
      have operandClosed := typeClosed.tail (by simp [closes])
      rw [bind_run (advance_run typeClosed.ne_nil),
        bind_run (expect_run closes operandClosed.ne_nil)] at ran
      obtain ⟨operand, _, read, ran⟩ := bind_ok.1 ran
      obtain ⟨ts, rest, m, ⟨rfl, restClosed, rfl⟩, reads, follows⟩ :=
        within.expression (Nat.le_refl _) operandClosed read
      rw [bind_run newNode_run] at ran
      cases ran
      refine ⟨.prefixed, opener :: type :: closer :: ts, rest, m + 1, ⟨rfl, restClosed, rfl⟩, ?_,
        by decide, follows⟩
      exact .castBefore opened named closes reads
    · obtain ⟨inner, _, read, ran⟩ := bind_ok.1 ran
      obtain ⟨ts, rest, m, ⟨rfl, restClosed, rfl⟩, reads, -⟩ :=
        within.expression (by decide) innerClosed read
      obtain ⟨closer, _, expected, ran⟩ := bind_ok.1 ran
      obtain ⟨last, rfl, closes, rfl, lastClosed⟩ := expectOr_ok restClosed (by decide) expected
      rw [bind_run newNode_run] at ran
      cases ran
      refine ⟨.primary, opener :: ts ++ [closer], last, m + 1, ⟨by simp, lastClosed, by simp⟩, ?_,
        by decide, headRank_le_primary _⟩
      exact .grouping opened closes reads
  | cast =>
    obtain ⟨type, _, advanced, ran⟩ := bind_ok.1 ran
    obtain ⟨rfl, rfl, openerClosed⟩ := advance_ok closed more advanced
    split at ran
    · simp at ran
    · rename_i target found
      obtain ⟨opener, _, expected, ran⟩ := bind_ok.1 ran
      obtain ⟨tokens, rfl, opened, rfl, operandClosed⟩ :=
        expectOr_ok openerClosed (by decide) expected
      obtain ⟨operand, _, read, ran⟩ := bind_ok.1 ran
      obtain ⟨ts, rest, m, ⟨rfl, restClosed, rfl⟩, reads, -⟩ :=
        within.expression (by decide) operandClosed read
      obtain ⟨closer, _, expected, ran⟩ := bind_ok.1 ran
      obtain ⟨last, rfl, closes, rfl, lastClosed⟩ := expectOr_ok restClosed (by decide) expected
      rw [bind_run newNode_run] at ran
      cases ran
      refine ⟨.primary, type :: opener :: ts ++ [closer], last, m + 1,
        ⟨by simp, lastClosed, by simp⟩, ?_, by decide, headRank_le_primary _⟩
      exact .castAround (castTarget?_named found) opened closes reads
  | list =>
    have opened := list_openBracket opens
    obtain ⟨opener, _, advanced, ran⟩ := bind_ok.1 ran
    obtain ⟨rfl, rfl, itemsClosed⟩ := advance_ok closed more advanced
    obtain ⟨es, _, read, ran⟩ := bind_ok.1 ran
    obtain ⟨ts, rest, m, ⟨rfl, restClosed, rfl⟩, reads⟩ := within.itemsUntil itemsClosed read
    obtain ⟨closer, _, expected, ran⟩ := bind_ok.1 ran
    obtain ⟨last, rfl, closes, rfl, lastClosed⟩ := expectOr_ok restClosed (by decide) expected
    rw [bind_run newNode_run] at ran
    cases ran
    refine ⟨.primary, opener :: ts ++ [closer], last, m + 1, ⟨by simp, lastClosed, by simp⟩, ?_,
      by decide, headRank_le_primary _⟩
    exact .list opened closes reads

-- Only a name can stand before an argument list: nothing else on the left lets the call go on.
theorem call_reads (within : ReadsWithin fuel) (reads : Reads layer start before left n)
    (tight : Layer.primary.rank ≤ layer.rank) (opens : t.kind = .openParen) {power : Power}
    (closed : Closed (t :: tokens))
    (ran : (Parse.joining standard (fuel + 1) .call left power).run (place p (t :: tokens) n) =
      .ok e s) :
    ∃ ts rest m, Passed p (t :: tokens) ts s rest m ∧ Reads .primary start (before ++ ts) e m := by
  obtain rfl : layer = .primary := by
    revert tight
    cases layer <;> decide
  cases reads with
  | tighter loose => exact absurd rfl loose
  | binary _ operator => cases operator
  | literal | call | grouping | castAround | list => simp [Parse.joining] at ran
  | @name callee _ named =>
    simp only [Parse.joining] at ran
    obtain ⟨opener, _, advanced, ran⟩ := bind_ok.1 ran
    obtain ⟨rfl, rfl, itemsClosed⟩ := advance_ok closed (by simp [opens]) advanced
    obtain ⟨es, _, read, ran⟩ := bind_ok.1 ran
    obtain ⟨ts, rest, m, ⟨rfl, restClosed, rfl⟩, reads⟩ := within.itemsUntil itemsClosed read
    obtain ⟨closer, _, expected, ran⟩ := bind_ok.1 ran
    obtain ⟨last, rfl, closes, rfl, lastClosed⟩ := expectOr_ok restClosed (by decide) expected
    rw [bind_run newNode_run] at ran
    cases ran
    refine ⟨opener :: ts ++ [closer], last, m + 1, ⟨by simp, lastClosed, by simp⟩, ?_⟩
    exact .call named opens closes reads

theorem joining_reads (within : ReadsWithin fuel) {rule : JoiningRule}
    (joins : standard.joining t.kind = some rule) (reads : Reads layer start before left n)
    (tight : (standard.powerOf t.kind).rank ≤ layer.rank) (closed : Closed (t :: tokens))
    (ran : (Parse.joining standard (fuel + 1) rule left (standard.powerOf t.kind)).run
      (place p (t :: tokens) n) = .ok e s) :
    ∃ joined ts rest m, Passed p (t :: tokens) ts s rest m ∧ Reads joined start (before ++ ts) e m ∧
      joined.rank = (standard.powerOf t.kind).rank ∧ headRank rest ≤ joined.rank := by
  cases rule with
  | call =>
    have opens := openParen_of_joining joins
    rw [opens] at tight
    obtain ⟨ts, rest, m, passed, reads⟩ := call_reads within reads tight opens closed ran
    exact ⟨.primary, ts, rest, m, passed, reads, by rw [opens]; rfl, headRank_le_primary _⟩
  | binary =>
    obtain ⟨joined, op, operator, found, rank, nextLayer, low⟩ := operator_of_joining joins
    simp only [Parse.joining] at ran
    rw [bind_run kind_run, place_kind, found] at ran
    obtain ⟨sign, _, advanced, ran⟩ := bind_ok.1 ran
    obtain ⟨rfl, rfl, operandClosed⟩ := advance_ok closed (joining_ne_eof joins) advanced
    obtain ⟨right, _, read, ran⟩ := bind_ok.1 ran
    have bounded : (standard.powerOf sign.kind).rank ≤ Power.unary.rank := rank ▸ Nat.le_of_lt low
    obtain ⟨ts, rest, m, ⟨rfl, restClosed, rfl⟩, readsRight, follows⟩ :=
      within.expression bounded operandClosed read
    rw [bind_run newNode_run] at ran
    cases ran
    refine ⟨joined, sign :: ts, rest, m + 1, ⟨rfl, restClosed, rfl⟩, ?_, rank.symm, rank ▸ follows⟩
    exact .binary (reads.loosen (rank ▸ tight)) operator (nextLayer ▸ readsRight)

theorem itemsUntil_reads (within : ReadsWithin fuel) {close : TokenKind} (closed : Closed tokens)
    (ran : (Parse.itemsUntil standard (fuel + 1) close).run (place p tokens n) = .ok es s) :
    ∃ ts rest m, Passed p tokens ts s rest m ∧ ReadsItems n ts es m := by
  simp only [Parse.itemsUntil, EStateM.run_bind, kind_run] at ran
  split at ran
  · cases ran
    exact ⟨[], tokens, n, ⟨rfl, closed, rfl⟩, .none⟩
  · obtain ⟨ts, rest, m, passed, reads, -⟩ := within.items closed ran
    exact ⟨ts, rest, m, passed, reads⟩

theorem items_reads (within : ReadsWithin fuel) (closed : Closed tokens)
    (ran : (Parse.items standard (fuel + 1)).run (place p tokens n) = .ok es s) :
    ∃ ts rest m, Passed p tokens ts s rest m ∧ ReadsItems n ts es m ∧ es ≠ [] := by
  simp only [Parse.items] at ran
  obtain ⟨item, _, read, ran⟩ := bind_ok.1 ran
  obtain ⟨ts, rest, m, ⟨rfl, restClosed, rfl⟩, reads, -⟩ :=
    within.expression (by decide) closed read
  obtain ⟨taken, _, accepted, ran⟩ := bind_ok.1 ran
  rcases accept_ok restClosed (by decide) accepted with
    ⟨rfl, comma, tokens, rfl, separated, rfl, more⟩ |
    ⟨rfl, rfl⟩
  · obtain ⟨es, _, read, ran⟩ := bind_ok.1 ran
    obtain ⟨us, last, k, ⟨rfl, lastClosed, rfl⟩, others, some⟩ := within.items more read
    cases ran
    refine ⟨ts ++ comma :: us, last, k, ⟨by simp, lastClosed, by simp⟩, ?_, by simp⟩
    exact .more reads separated others some
  · cases ran
    exact ⟨ts, rest, m, ⟨rfl, restClosed, rfl⟩, .last reads, by simp⟩

theorem reads_within (fuel : Nat) : ReadsWithin fuel := by
  induction fuel with
  | zero =>
    constructor <;> intros <;> simp_all [Parse.expression, Parse.continuation, Parse.opening,
      Parse.joining, Parse.itemsUntil, Parse.items]
  | succ fuel within =>
    exact ⟨expression_reads within, continuation_reads within, opening_reads within,
      joining_reads within, itemsUntil_reads within, items_reads within⟩

end Scriptlet.Parse
