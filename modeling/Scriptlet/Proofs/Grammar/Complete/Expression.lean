import Scriptlet.Proofs.Grammar.Sound.Expression

/-!
Every expression of the grammar is read, with the tree, the numbers and the stretches of its
derivation. A token costs three steps of the budget at most. What comes after the expression is
left open: the statement says what the whole reading gives once the loop goes on with the tree.
-/

namespace Scriptlet

open Parse
open Grammar (standard)

-- A token that can stand inside an expression.
inductive TokenKind.InExpression : TokenKind → Prop where
  | opener {k rule} (opens : standard.opening k = some rule) : InExpression k
  | operator {k rule} (joins : standard.joining k = some rule) : InExpression k
  | closer {k} (closes : k = .closeParen ∨ k = .closeBracket ∨ k = .comma) : InExpression k

namespace TokenKind.InExpression

variable {k : TokenKind}

theorem of_openParen (opens : k = .openParen) : k.InExpression :=
  @opener k .grouping (by rw [opens]; rfl)

theorem of_openBracket (opens : k = .openBracket) : k.InExpression :=
  @opener k .list (by rw [opens]; rfl)

theorem of_identifier (named : k = .identifier) : k.InExpression :=
  @opener k .leaf (by rw [named]; rfl)

end TokenKind.InExpression

theorem inBrackets {opener closer : Token} {ts : List Token} (opens : opener.kind.InExpression)
    (closes : closer.kind = .closeParen ∨ closer.kind = .closeBracket ∨ closer.kind = .comma)
    (inside : ∀ t ∈ ts, t.kind.InExpression) :
    ∀ t ∈ opener :: (ts ++ [closer]), t.kind.InExpression :=
  List.forall_mem_cons.2 ⟨opens,
    List.forall_mem_append.2 ⟨inside, List.forall_mem_singleton.2 (.closer closes)⟩⟩

theorem leafOf_opening {t : Token} {build : Node → Expr} (built : leafOf t = .ok build) :
    standard.opening t.kind = some .leaf := by
  obtain ⟨kind, value, span⟩ := t
  cases kind <;> first | rfl | cases built

theorem leafOf_identifier {t : Token} (named : t.kind = .identifier) :
    leafOf t = .ok fun node => .identifier node t.value := by
  simp [leafOf, named]

theorem NamesType.opening {k : TokenKind} {target : CastTarget} (named : k.NamesType target) :
    standard.opening k = some .cast ∧ castTarget? k = some target := by
  cases named <;> exact ⟨rfl, rfl⟩

theorem NamesSign.opening {k : TokenKind} {op : UnaryOp} (signed : k.NamesSign op) :
    standard.opening k = some .signed ∧ (if k = .not then .not else .negate) = op := by
  cases signed <;> exact ⟨rfl, rfl⟩

theorem operator_joining {layer : Layer} {k : TokenKind} {op : BinaryOp}
    (operator : layer.operator? k = some op) :
    standard.joining k = some .binary ∧ binaryOp? k = some op ∧
      (standard.powerOf k).rank = layer.rank ∧ (standard.powerOf k).layer = layer.next ∧
      layer.rank < Layer.prefixed.rank := by
  unfold Layer.operator? at operator
  split at operator <;> cases operator <;> exact ⟨rfl, rfl, rfl, rfl, by decide⟩

theorem opening_untyped {k : TokenKind} {rule : OpeningRule}
    (opens : standard.opening k = some rule)
    (other : rule ≠ .cast) : castTarget? k = none := by
  cases k <;> first | rfl | (cases opens; exact absurd rfl other)

theorem Reads.starts : ∀ {layer n ts e m}, Reads layer n ts e m →
    ∃ t us rule, ts = t :: us ∧ standard.opening t.kind = some rule
  | _, _, _, _, _, .tighter _ inner => inner.starts
  | _, _, _, _, _, @Reads.binary _ sign _ _ rs _ _ _ _ _ left _ _ => by
    obtain ⟨t, us, rule, rfl, opens⟩ := left.starts
    exact ⟨t, us ++ sign :: rs, rule, rfl, opens⟩
  | _, _, _, _, _, .unary signed _ => ⟨_, _, .signed, rfl, (NamesSign.opening signed).1⟩
  | _, _, _, _, _, .castBefore opens _ _ _ => ⟨_, _, .grouping, rfl, by rw [opens]; rfl⟩
  | _, _, _, _, _, .literal read => ⟨_, _, .leaf, rfl, leafOf_opening read⟩
  | _, _, _, _, _, .name named => ⟨_, _, .leaf, rfl, by rw [named]; rfl⟩
  | _, _, _, _, _, .call named _ _ _ => ⟨_, _, .leaf, rfl, by rw [named]; rfl⟩
  | _, _, _, _, _, .grouping opens _ _ => ⟨_, _, .grouping, rfl, by rw [opens]; rfl⟩
  | _, _, _, _, _, .castAround named _ _ _ => ⟨_, _, .cast, rfl, (NamesType.opening named).1⟩
  | _, _, _, _, _, .list opens _ _ => ⟨_, _, .list, rfl, by rw [opens]; rfl⟩

theorem Reads.type_opens : ∀ {layer n ts e m t us}, Reads layer n ts e m → ts = t :: us →
    castTarget? t.kind ≠ none → ∃ u rest, us = u :: rest ∧ u.kind = .openParen
  | _, _, _, _, _, _, _, .tighter _ inner, starts, typed => inner.type_opens starts typed
  | _, _, _, _, _, _, _, @Reads.binary _ sign _ _ rs _ _ _ _ _ left _ _, starts, typed => by
    obtain ⟨v, vs, rule, same, -⟩ := left.starts
    rw [same] at starts
    obtain ⟨rfl, rfl⟩ := List.cons.inj starts
    obtain ⟨u, rest, rfl, opens⟩ := left.type_opens same typed
    exact ⟨u, rest ++ sign :: rs, rfl, opens⟩
  | _, _, _, _, _, _, _, .unary signed _, starts, typed => by
    cases starts
    rw [opening_untyped (NamesSign.opening signed).1 (by decide)] at typed
    exact absurd rfl typed
  | _, _, _, _, _, _, _, .castBefore opens _ _ _, starts, typed
  | _, _, _, _, _, _, _, .grouping opens _ _, starts, typed
  | _, _, _, _, _, _, _, .list opens _ _, starts, typed => by
    cases starts
    rw [opens] at typed
    exact absurd rfl typed
  | _, _, _, _, _, _, _, .literal read, starts, typed => by
    cases starts
    rw [opening_untyped (leafOf_opening read) (by decide)] at typed
    exact absurd rfl typed
  | _, _, _, _, _, _, _, .name named, starts, typed
  | _, _, _, _, _, _, _, .call named _ _ _, starts, typed => by
    cases starts
    rw [named] at typed
    exact absurd rfl typed
  | _, _, _, _, _, _, _, .castAround _ opens _ _, starts, _ => by
    cases starts
    exact ⟨_, _, rfl, opens⟩

mutual

theorem Reads.tokens : ∀ {layer n ts e m}, Reads layer n ts e m → ∀ t ∈ ts, t.kind.InExpression
  | _, _, _, _, _, .tighter _ inner => inner.tokens
  | _, _, _, _, _, .binary left operator right =>
    List.forall_mem_append.2 ⟨left.tokens,
      List.forall_mem_cons.2 ⟨.operator (operator_joining operator).1, right.tokens⟩⟩
  | _, _, _, _, _, .unary signed operand =>
    List.forall_mem_cons.2 ⟨.opener (NamesSign.opening signed).1, operand.tokens⟩
  | _, _, _, _, _, .castBefore opens named closes operand =>
    List.forall_mem_cons.2 ⟨.of_openParen opens, List.forall_mem_cons.2
      ⟨.opener (NamesType.opening named).1, List.forall_mem_cons.2
        ⟨.closer (.inl closes), operand.tokens⟩⟩⟩
  | _, _, _, _, _, .literal read => List.forall_mem_singleton.2 (.opener (leafOf_opening read))
  | _, _, _, _, _, .name named => List.forall_mem_singleton.2 (.of_identifier named)
  | _, _, _, _, _, .call named opens closes arguments =>
    List.forall_mem_cons.2 ⟨.of_identifier named,
      inBrackets (.of_openParen opens) (.inl closes) arguments.tokens⟩
  | _, _, _, _, _, .grouping opens closes inner =>
    inBrackets (.of_openParen opens) (.inl closes) inner.tokens
  | _, _, _, _, _, .castAround named opens closes operand =>
    List.forall_mem_cons.2 ⟨.opener (NamesType.opening named).1,
      inBrackets (.of_openParen opens) (.inl closes) operand.tokens⟩
  | _, _, _, _, _, .list opens closes items =>
    inBrackets (.of_openBracket opens) (.inr (.inl closes)) items.tokens

theorem ReadsItems.tokens : ∀ {n ts es m}, ReadsItems n ts es m → ∀ t ∈ ts, t.kind.InExpression
  | _, _, _, _, .none => by simp
  | _, _, _, _, .last item => item.tokens
  | _, _, _, _, .more item separated rest _ =>
    List.forall_mem_append.2 ⟨item.tokens,
      List.forall_mem_cons.2 ⟨.closer (.inr (.inr separated)), rest.tokens⟩⟩

end

namespace Parse

variable {α : Type} {p q : Option Position} {t opener closer : Token} {tokens rest : List Token}
  {n m : NodeId} {e left operand : Expr} {es : List Expr} {s : ParseState} {least : Power}
  {result : EStateM.Result Stop ParseState Expr} {c k : Nat}

-- With a budget of at least `c` the step gives `result`.
def Gives (step : Nat → Parse α) (s : ParseState) (c : Nat)
    (result : EStateM.Result Stop ParseState α) : Prop :=
  ∀ fuel, c ≤ fuel → (step fuel).run s = result

theorem Gives.mono {step : Nat → Parse α} {result : EStateM.Result Stop ParseState α}
    (gives : Gives step s c result) (more : c ≤ k) : Gives step s k result := by
  intro fuel enough
  exact gives fuel (Nat.le_trans more enough)

theorem gives_succ {step : Nat → Parse α} {result : EStateM.Result Stop ParseState α}
    (next : ∀ fuel, c ≤ fuel → (step (fuel + 1)).run s = result) : Gives step s (c + 1) result := by
  intro fuel enough
  obtain ⟨rest, rfl⟩ := Nat.exists_eq_add_of_le enough
  rw [show c + 1 + rest = c + rest + 1 by omega]
  exact next (c + rest) (by omega)

theorem expression_gives {rule : OpeningRule} (opens : standard.opening t.kind = some rule)
    (opened : Gives (opening standard · rule) (place p (t :: tokens) n) c (.ok left s))
    (continues : Gives (continuation standard · least left) s c result) :
    Gives (expression standard · least) (place p (t :: tokens) n) (c + 1) result := by
  refine gives_succ fun fuel enough => ?_
  simp only [expression]
  rw [bind_run current_run, place_current, opens]
  exact (bind_run (opened fuel enough)).trans (continues fuel enough)

theorem continuation_stops (closed : Closed tokens) (stops : headRank tokens ≤ least.rank) :
    Gives (continuation standard · least e) (place p tokens n) 1 (.ok e (place p tokens n)) := by
  match tokens, closed.ne_nil with
  | t :: tokens, _ =>
    refine gives_succ fun fuel _ => ?_
    simp only [continuation]
    have done : ¬ least.rank < (standard.powerOf t.kind).rank := Nat.not_lt.2 stops
    rw [bind_run current_run, place_current, if_neg done]
    rfl

theorem continuation_gives {rule : JoiningRule} (joins : standard.joining t.kind = some rule)
    (tight : least.rank < (standard.powerOf t.kind).rank)
    (joined : Gives (joining standard · rule left (standard.powerOf t.kind))
      (place p (t :: tokens) n) c (.ok e s))
    (continues : Gives (continuation standard · least e) s c result) :
    Gives (continuation standard · least left) (place p (t :: tokens) n) (c + 1) result := by
  refine gives_succ fun fuel enough => ?_
  simp only [continuation]
  rw [bind_run current_run, place_current, if_pos tight, joins]
  exact (bind_run (joined fuel enough)).trans (continues fuel enough)

theorem leaf_gives {build : Node → Expr} (built : leafOf t = .ok build) (closed : Closed rest) :
    Gives (opening standard · .leaf) (place p (t :: rest) n) 1
      (.ok (build ⟨n, t.span⟩) (place (some t.span.stop) rest (n + 1))) := by
  refine gives_succ fun fuel _ => ?_
  simp only [opening, leaf]
  rw [bind_run current_run, place_current, built]
  dsimp only
  rw [bind_run (advance_run closed.ne_nil), bind_run newNode_run]
  rfl

theorem signed_gives {op : UnaryOp} (signed : t.kind.NamesSign op) (closed : Closed tokens)
    (reads : Gives (expression standard · .unary) (place (some t.span.stop) tokens n) c
      (.ok operand (place q rest m))) :
    Gives (opening standard · .signed) (place p (t :: tokens) n) (c + 1)
      (.ok (.unary ⟨m, t.span.to operand.span⟩ op operand) (place q rest (m + 1))) := by
  refine gives_succ fun fuel enough => ?_
  simp only [opening]
  rw [bind_run (advance_run closed.ne_nil), bind_run (reads fuel enough), bind_run newNode_run,
    (NamesSign.opening signed).2]
  rfl

theorem castBefore_gives {type : Token} {target : CastTarget} (named : type.kind.NamesType target)
    (closes : closer.kind = .closeParen) (closed : Closed tokens)
    (reads : Gives (expression standard · .unary) (place (some closer.span.stop) tokens n) c
      (.ok operand (place q rest m))) :
    Gives (opening standard · .grouping) (place p (opener :: type :: closer :: tokens) n) (c + 1)
      (.ok (.cast ⟨m, ⟨opener.span.start, operand.span.stop⟩⟩ target operand)
        (place q rest (m + 1))) := by
  refine gives_succ fun fuel enough => ?_
  have found : prefixCast? (place (some opener.span.stop) (type :: closer :: tokens) n).cursor =
      some target := (if_pos closes).trans (NamesType.opening named).2
  simp only [opening]
  rw [bind_run (advance_run (by simp)), bind_run cursor_run, found]
  dsimp only
  rw [bind_run (advance_run (by simp)), bind_run (expect_run closes closed.ne_nil),
    bind_run (reads fuel enough), bind_run newNode_run]
  rfl

theorem grouping_gives (closes : closer.kind = .closeParen) (closed : Closed rest)
    (more : tokens ≠ [])
    (plain : prefixCast? (place (some opener.span.stop) tokens n).cursor = none)
    (reads : Gives (expression standard · .default) (place (some opener.span.stop) tokens n) c
      (.ok e (place q (closer :: rest) m))) :
    Gives (opening standard · .grouping) (place p (opener :: tokens) n) (c + 1)
      (.ok (.grouping ⟨m, ⟨opener.span.start, closer.span.stop⟩⟩ e)
        (place (some closer.span.stop) rest (m + 1))) := by
  refine gives_succ fun fuel enough => ?_
  simp only [opening]
  rw [bind_run (advance_run more), bind_run cursor_run, plain]
  dsimp only
  rw [bind_run (reads fuel enough), bind_run (expect_run closes closed.ne_nil),
    bind_run newNode_run]
  rfl

theorem castAround_gives {type : Token} {target : CastTarget} (named : type.kind.NamesType target)
    (opens : opener.kind = .openParen) (closes : closer.kind = .closeParen) (closed : Closed rest)
    (more : tokens ≠ [])
    (reads : Gives (expression standard · .default) (place (some opener.span.stop) tokens n) c
      (.ok operand (place q (closer :: rest) m))) :
    Gives (opening standard · .cast) (place p (type :: opener :: tokens) n) (c + 1)
      (.ok (.cast ⟨m, ⟨type.span.start, closer.span.stop⟩⟩ target operand)
        (place (some closer.span.stop) rest (m + 1))) := by
  refine gives_succ fun fuel enough => ?_
  simp only [opening]
  rw [bind_run (advance_run (by simp)), (NamesType.opening named).2]
  dsimp only
  rw [bind_run (expectNamed_run opens more), bind_run (reads fuel enough),
    bind_run (expect_run closes closed.ne_nil), bind_run newNode_run]
  rfl

theorem list_gives (closes : closer.kind = .closeBracket) (closed : Closed rest)
    (more : tokens ≠ [])
    (reads : Gives (itemsUntil standard · .closeBracket) (place (some opener.span.stop) tokens n) c
      (.ok es (place q (closer :: rest) m))) :
    Gives (opening standard · .list) (place p (opener :: tokens) n) (c + 1)
      (.ok (.list ⟨m, ⟨opener.span.start, closer.span.stop⟩⟩ es)
        (place (some closer.span.stop) rest (m + 1))) := by
  refine gives_succ fun fuel enough => ?_
  simp only [opening]
  rw [bind_run (advance_run more), bind_run (reads fuel enough),
    bind_run (expect_run closes closed.ne_nil), bind_run newNode_run]
  rfl

theorem call_gives {callee : Node} {name : String} {power : Power}
    (closes : closer.kind = .closeParen) (closed : Closed rest) (more : tokens ≠ [])
    (reads : Gives (itemsUntil standard · .closeParen) (place (some opener.span.stop) tokens n) c
      (.ok es (place q (closer :: rest) m))) :
    Gives (joining standard · .call (.identifier callee name) power)
      (place p (opener :: tokens) n) (c + 1)
      (.ok (.call ⟨m, ⟨callee.span.start, closer.span.stop⟩⟩ name callee.span es)
        (place (some closer.span.stop) rest (m + 1))) := by
  refine gives_succ fun fuel enough => ?_
  simp only [joining]
  rw [bind_run (advance_run more), bind_run (reads fuel enough),
    bind_run (expect_run closes closed.ne_nil), bind_run newNode_run]
  rfl

theorem binary_gives {op : BinaryOp} {power : Power} (found : binaryOp? t.kind = some op)
    (more : tokens ≠ [])
    (reads : Gives (expression standard · power) (place (some t.span.stop) tokens n) c
      (.ok e (place q rest m))) :
    Gives (joining standard · .binary left power) (place p (t :: tokens) n) (c + 1)
      (.ok (.binary ⟨m, left.span.to e.span⟩ op left e) (place q rest (m + 1))) := by
  refine gives_succ fun fuel enough => ?_
  simp only [joining]
  rw [bind_run kind_run, place_kind, found]
  dsimp only
  rw [bind_run (advance_run more), bind_run (reads fuel enough), bind_run newNode_run]
  rfl

theorem itemsUntil_stops {close : TokenKind} (closes : t.kind = close) :
    Gives (itemsUntil standard · close) (place p (t :: rest) n) 1
      (.ok [] (place p (t :: rest) n)) := by
  refine gives_succ fun fuel _ => ?_
  simp only [itemsUntil]
  rw [bind_run kind_run, place_kind, if_pos closes]
  rfl

theorem itemsUntil_gives {close : TokenKind} (other : t.kind ≠ close)
    (reads : Gives (items standard ·) (place p (t :: tokens) n) c (.ok es s)) :
    Gives (itemsUntil standard · close) (place p (t :: tokens) n) (c + 1) (.ok es s) := by
  refine gives_succ fun fuel enough => ?_
  simp only [itemsUntil]
  rw [bind_run kind_run, place_kind, if_neg other]
  exact reads fuel enough

theorem items_last (other : t.kind ≠ .comma)
    (reads : Gives (expression standard · .default) (place p tokens n) c
      (.ok e (place q (t :: rest) m))) :
    Gives (items standard ·) (place p tokens n) (c + 1) (.ok [e] (place q (t :: rest) m)) := by
  refine gives_succ fun fuel enough => ?_
  simp only [items]
  rw [bind_run (reads fuel enough), bind_run (accept_run_other other)]
  rfl

theorem items_more {comma : Token} {middle : List Token} (separated : comma.kind = .comma)
    (more : middle ≠ [])
    (reads : Gives (expression standard · .default) (place p tokens n) c
      (.ok e (place q (comma :: middle) m)))
    (others : Gives (items standard ·) (place (some comma.span.stop) middle m) c (.ok es s)) :
    Gives (items standard ·) (place p tokens n) (c + 1) (.ok (e :: es) s) := by
  refine gives_succ fun fuel enough => ?_
  simp only [items]
  rw [bind_run (reads fuel enough), bind_run (accept_run separated more)]
  exact bind_run (others fuel enough)

-- What may follow an expression of the layer when operators looser than `least` are left alone.
structure Fits (least : Power) (layer : Layer) (rest : List Token) : Prop where
  low : least.rank ≤ Power.unary.rank
  loose : least.layer.rank ≤ layer.rank
  closed : Closed rest
  follows : headRank rest ≤ layer.rank

theorem Fits.next {layer : Layer} (fits : Fits least layer rest) (loose : layer ≠ .primary) :
    Fits least layer.next rest := by
  have rank := Layer.rank_next loose
  exact { fits with
    loose := by have := fits.loose; omega
    follows := by have := fits.follows; omega }

theorem fits_plain (low : least.rank ≤ Power.unary.rank) {layer : Layer}
    (loose : least.layer.rank ≤ layer.rank) (closed : Closed rest) (plain : headRank rest = 0) :
    Fits least layer rest := by
  exact ⟨low, loose, closed, by omega⟩

theorem rank_lt_of_layer {layer : Layer} (loose : least.layer.rank ≤ layer.rank)
    (low : layer.rank < Layer.prefixed.rank) : least.rank < layer.rank := by
  revert loose low
  cases least <;> cases layer <;> decide

theorem prefixCast?_grouping {ts : List Token} {k : NodeId} {layer : Layer}
    (reads : Reads layer k ts e m) :
    prefixCast? (place p (ts ++ closer :: rest) n).cursor = none := by
  obtain ⟨t, us, rule, rfl, opens⟩ := reads.starts
  by_cases typed : castTarget? t.kind = none
  · simp [prefixCast?, place, Cursor.kind, typed]
  · obtain ⟨u, vs, rfl, opens⟩ := reads.type_opens rfl typed
    simp [prefixCast?, place, Cursor.peek, opens]

end Parse

theorem ReadsItems.starts {n m : NodeId} {ts : List Token} {es : List Expr}
    (reads : ReadsItems n ts es m) (some : es ≠ []) :
    ∃ t us rule, ts = t :: us ∧ standard.opening t.kind = .some rule := by
  cases reads with
  | none => exact absurd rfl some
  | last item => exact item.starts
  | @more comma _ us _ _ _ _ _ item =>
    obtain ⟨t, ts, rule, rfl, opens⟩ := item.starts
    exact ⟨t, ts ++ comma :: us, rule, rfl, opens⟩

-- Tokens that are read as `e` wherever an expression of the layer may stand.
def Given (layer : Layer) (n : NodeId) (ts : List Token) (e : Expr) (m : NodeId) : Prop :=
  ∀ ⦃p rest least k result⦄, Fits least layer rest →
    Gives (continuation standard · least e) (place (lastStop p ts) rest m) k result →
    Gives (expression standard · least) (place p (ts ++ rest) n) (k + 3 * ts.length) result

def ItemsGiven (n : NodeId) (ts : List Token) (es : List Expr) (m : NodeId) : Prop :=
  ∀ ⦃p rest t⦄, Closed (t :: rest) → headRank (t :: rest) = 0 → t.kind ≠ .comma →
    Gives (items standard ·) (place p (ts ++ t :: rest) n) (3 * ts.length + 2)
      (.ok es (place (lastStop p ts) (t :: rest) m))

variable {layer : Layer} {n m k : NodeId} {ts us rest : List Token} {e l r : Expr}
  {es : List Expr} {t opener closer : Token} {p : Option Position}

theorem Given.alone (given : Given layer n ts e m) {least : Power} (fits : Fits least layer rest)
    (stops : headRank rest ≤ least.rank) :
    Gives (expression standard · least) (place p (ts ++ rest) n) (1 + 3 * ts.length)
      (.ok e (place (lastStop p ts) rest m)) :=
  given fits (continuation_stops fits.closed stops)

theorem Given.inside (given : Given .disjunction n ts e m) (closed : Closed (closer :: rest))
    (plain : headRank (closer :: rest) = 0) :
    Gives (expression standard · .default) (place p (ts ++ closer :: rest) n) (1 + 3 * ts.length)
      (.ok e (place (lastStop p ts) (closer :: rest) m)) := by
  have fits : Fits .default .disjunction (closer :: rest) :=
    fits_plain (by decide) (by decide) closed plain
  exact given.alone fits (Nat.le_of_eq plain)

theorem given_tighter (loose : layer ≠ .primary) (inner : Given layer.next n ts e m) :
    Given layer n ts e m := by
  intro p rest least k result fits continues
  exact inner (fits.next loose) continues

theorem given_binary {sign : Token} {op : BinaryOp} (left : Given layer n ts l m)
    (operator : layer.operator? sign.kind = some op) (right : Given layer.next m us r k) :
    Given layer n (ts ++ sign :: us) (.binary ⟨k, l.span.to r.span⟩ op l r) (k + 1) := by
  intro p rest least c result fits continues
  obtain ⟨joins, found, rank, nextLayer, low⟩ := operator_joining operator
  have loose : layer ≠ .primary := by
    rintro rfl
    cases operator
  have stops : headRank rest ≤ (standard.powerOf sign.kind).rank := rank ▸ fits.follows
  have rightFits : Fits (standard.powerOf sign.kind) layer.next rest :=
    { fits.next loose with
      low := rank ▸ Nat.le_of_lt low
      loose := Nat.le_of_eq (congrArg Layer.rank nextLayer) }
  have more := (@Closed.append us rest fits.closed).ne_nil
  have joined : Gives (joining standard · .binary l (standard.powerOf sign.kind))
      (place (lastStop p ts) (sign :: (us ++ rest)) m) _ _ :=
    binary_gives found more (right.alone rightFits stops)
  have tight : least.rank < (standard.powerOf sign.kind).rank :=
    rank ▸ rank_lt_of_layer fits.loose low
  rw [lastStop_append] at continues
  have continues := continuation_gives (c := c + 3 * us.length + 2) joins tight
    (joined.mono (by omega)) (continues.mono (by omega))
  have leftFits : Fits least layer (sign :: (us ++ rest)) :=
    ⟨fits.low, fits.loose, fits.closed.append.cons, Nat.le_of_eq rank⟩
  have shape : ts ++ sign :: us ++ rest = ts ++ sign :: (us ++ rest) := by simp
  rw [shape]
  exact (left leftFits continues).mono (by simp only [List.length_append, List.length_cons]; omega)

theorem given_opening {rule : OpeningRule} {c : Nat} (opens : standard.opening t.kind = some rule)
    (within : c ≤ 3 * us.length + 2)
    (opened : ∀ {p rest}, Closed rest → headRank rest ≤ layer.rank →
      Gives (opening standard · rule) (place p (t :: (us ++ rest)) n) c
        (.ok e (place (lastStop p (t :: us)) rest m))) :
    Given layer n (t :: us) e m := by
  intro p rest least k result fits continues
  have opened := opened (p := p) fits.closed fits.follows
  refine (expression_gives (c := k + c) opens (opened.mono (by omega))
    (continues.mono (by omega))).mono ?_
  simp only [List.length_cons]
  omega

theorem given_leaf {build : Node → Expr} (built : leafOf t = .ok build) :
    Given layer n [t] (build ⟨n, t.span⟩) (n + 1) := by
  refine given_opening (c := 1) (leafOf_opening built) (by simp) ?_
  intro p rest closed _
  exact leaf_gives built closed

theorem given_unary {op : UnaryOp} (signed : t.kind.NamesSign op)
    (operand : Given .prefixed n ts e m) :
    Given .prefixed n (t :: ts) (.unary ⟨m, t.span.to e.span⟩ op e) (m + 1) := by
  refine given_opening (c := 1 + 3 * ts.length + 1) (NamesSign.opening signed).1 (by omega) ?_
  intro p rest closed follows
  have fits : Fits .unary .prefixed rest := ⟨Nat.le_refl _, Nat.le_refl _, closed, follows⟩
  exact signed_gives signed closed.append (operand.alone fits follows)

theorem given_castBefore {type : Token} {target : CastTarget} (opens : opener.kind = .openParen)
    (named : type.kind.NamesType target) (closes : closer.kind = .closeParen)
    (operand : Given .prefixed n ts e m) :
    Given .prefixed n (opener :: type :: closer :: ts)
      (.cast ⟨m, ⟨opener.span.start, e.span.stop⟩⟩ target e) (m + 1) := by
  have opening : standard.opening opener.kind = some .grouping := by rw [opens]; rfl
  refine given_opening (c := 1 + 3 * ts.length + 1) opening
    (by simp only [List.length_cons]; omega) ?_
  intro p rest closed follows
  have fits : Fits .unary .prefixed rest := ⟨Nat.le_refl _, Nat.le_refl _, closed, follows⟩
  exact castBefore_gives named closes closed.append (operand.alone fits follows)

theorem given_grouping (opens : opener.kind = .openParen) (closes : closer.kind = .closeParen)
    (reads : Reads .disjunction n ts e m) (inner : Given .disjunction n ts e m) :
    Given layer n (opener :: ts ++ [closer])
      (.grouping ⟨m, ⟨opener.span.start, closer.span.stop⟩⟩ e) (m + 1) := by
  have opening : standard.opening opener.kind = some .grouping := by rw [opens]; rfl
  rw [List.cons_append]
  refine given_opening (c := 1 + 3 * ts.length + 1) opening
    (by simp only [List.length_append]; omega) ?_
  intro p rest closed _
  have plain : headRank (closer :: rest) = 0 := by simp only [headRank, closes]; rfl
  have shape : ts ++ [closer] ++ rest = ts ++ closer :: rest := by simp
  rw [shape, lastStop_cons, lastStop_append]
  exact grouping_gives closes closed (by simp) (prefixCast?_grouping reads)
    (inner.inside closed.cons plain)

theorem given_castAround {type : Token} {target : CastTarget} (named : type.kind.NamesType target)
    (opens : opener.kind = .openParen) (closes : closer.kind = .closeParen)
    (operand : Given .disjunction n ts e m) :
    Given layer n (type :: opener :: ts ++ [closer])
      (.cast ⟨m, ⟨type.span.start, closer.span.stop⟩⟩ target e) (m + 1) := by
  rw [List.cons_append]
  refine given_opening (c := 1 + 3 * ts.length + 1) (NamesType.opening named).1
    (by simp only [List.length_append, List.length_cons]; omega) ?_
  intro p rest closed _
  have plain : headRank (closer :: rest) = 0 := by simp only [headRank, closes]; rfl
  have shape : opener :: ts ++ [closer] ++ rest = opener :: (ts ++ closer :: rest) := by simp
  rw [shape, lastStop_cons, List.cons_append, lastStop_cons, lastStop_append]
  exact castAround_gives named opens closes closed (by simp) (operand.inside closed.cons plain)

-- The closing bracket is none of the tokens that open an expression, so it shows the end at once.
theorem itemsUntil_given {close : TokenKind} (reads : ReadsItems n ts es m)
    (closes : closer.kind = close) (shut : standard.opening close = none)
    (bracket : (standard.powerOf close).rank = 0) (other : close ≠ .comma)
    (given : es ≠ [] → ItemsGiven n ts es m) (closed : Closed (closer :: rest)) :
    Gives (itemsUntil standard · close) (place p (ts ++ closer :: rest) n) (3 * ts.length + 3)
      (.ok es (place (lastStop p ts) (closer :: rest) m)) := by
  by_cases some : es = []
  · subst some
    cases reads with
    | none => exact (itemsUntil_stops closes).mono (by omega)
  · have plain : headRank (closer :: rest) = 0 := by rw [headRank, closes, bracket]
    have reading := given some (p := p) closed plain (closes ▸ other)
    obtain ⟨u, us, rule, rfl, opens⟩ := reads.starts some
    refine itemsUntil_gives ?_ reading
    rintro rfl
    rw [shut] at opens
    cases opens

theorem given_list (opens : opener.kind = .openBracket) (closes : closer.kind = .closeBracket)
    (reads : ReadsItems n ts es m) (given : es ≠ [] → ItemsGiven n ts es m) :
    Given layer n (opener :: ts ++ [closer])
      (.list ⟨m, ⟨opener.span.start, closer.span.stop⟩⟩ es) (m + 1) := by
  have opening : standard.opening opener.kind = some .list := by rw [opens]; rfl
  rw [List.cons_append]
  refine given_opening (c := 3 * ts.length + 3 + 1) opening
    (by simp only [List.length_append, List.length_singleton]; omega) ?_
  intro p rest closed _
  have shape : ts ++ [closer] ++ rest = ts ++ closer :: rest := by simp
  rw [shape, lastStop_cons, lastStop_append]
  exact list_gives closes closed (by simp)
    (itemsUntil_given reads closes rfl rfl (by decide) given closed.cons)

theorem openParen_joins (opens : opener.kind = .openParen) {least : Power}
    (low : least.rank ≤ Power.unary.rank) :
    standard.joining opener.kind = some .call ∧
      least.rank < (standard.powerOf opener.kind).rank := by
  rw [opens]
  exact ⟨rfl, Nat.lt_succ_of_le low⟩

theorem given_call {callee : Token} (named : callee.kind = .identifier)
    (opens : opener.kind = .openParen) (closes : closer.kind = .closeParen)
    (reads : ReadsItems (n + 1) ts es m) (given : es ≠ [] → ItemsGiven (n + 1) ts es m) :
    Given layer n (callee :: opener :: ts ++ [closer])
      (.call ⟨m, ⟨callee.span.start, closer.span.stop⟩⟩ callee.value callee.span es) (m + 1) := by
  intro p rest least k result fits continues
  have built := leafOf_identifier named
  have shape : callee :: opener :: ts ++ [closer] ++ rest =
      callee :: opener :: (ts ++ closer :: rest) := by simp
  have closed : Closed (opener :: (ts ++ closer :: rest)) := fits.closed.cons.append.cons
  have joined : Gives (joining standard · .call (.identifier ⟨n, callee.span⟩ callee.value)
      (standard.powerOf opener.kind))
      (place (some callee.span.stop) (opener :: (ts ++ closer :: rest)) (n + 1)) _ _ :=
    call_gives closes fits.closed (by simp)
      (itemsUntil_given reads closes rfl rfl (by decide) given fits.closed.cons)
  obtain ⟨joins, tight⟩ := openParen_joins opens fits.low
  rw [lastStop_append] at continues
  have continues := continuation_gives (c := k + 3 * ts.length + 4) joins tight
    (joined.mono (by omega)) (continues.mono (by omega))
  rw [shape]
  refine (expression_gives (leafOf_opening built) ((leaf_gives built closed).mono ?_)
    continues).mono ?_
  · omega
  · simp only [List.length_append, List.length_cons]
    omega

theorem itemsGiven_last (item : Given .disjunction n ts e m) : ItemsGiven n ts [e] m := by
  intro p rest t closed plain other
  exact (items_last other (item.inside closed plain)).mono (by omega)

theorem itemsGiven_more {comma : Token} (item : Given .disjunction n ts e m)
    (separated : comma.kind = .comma) (others : ItemsGiven m us es k) :
    ItemsGiven n (ts ++ comma :: us) (e :: es) k := by
  intro p rest t closed plain other
  have shape : ts ++ comma :: us ++ t :: rest = ts ++ comma :: (us ++ t :: rest) := by simp
  have loose : headRank (comma :: (us ++ t :: rest)) = 0 := by
    simp only [headRank, separated]
    rfl
  have first := item.inside (p := p) (@Closed.append us _ closed).cons loose
  have following := others (p := some comma.span.stop) closed plain other
  rw [shape, lastStop_append]
  refine (items_more (c := 3 * ts.length + 3 * us.length + 3) separated (by simp)
    (first.mono (by omega)) (following.mono (by omega))).mono ?_
  simp only [List.length_append, List.length_cons]
  omega

mutual

theorem Reads.given : ∀ {layer n ts e m}, Reads layer n ts e m → Given layer n ts e m
  | _, _, _, _, _, .tighter loose inner => given_tighter loose inner.given
  | _, _, _, _, _, .binary left operator right => given_binary left.given operator right.given
  | _, _, _, _, _, .unary signed operand => given_unary signed operand.given
  | _, _, _, _, _, .castBefore opens named closes operand =>
    given_castBefore opens named closes operand.given
  | _, _, _, _, _, .literal read => given_leaf read
  | _, _, _, _, _, .name named => given_leaf (leafOf_identifier named)
  | _, _, _, _, _, .call named opens closes arguments =>
    given_call named opens closes arguments arguments.given
  | _, _, _, _, _, .grouping opens closes inner => given_grouping opens closes inner inner.given
  | _, _, _, _, _, .castAround named opens closes operand =>
    given_castAround named opens closes operand.given
  | _, _, _, _, _, .list opens closes items => given_list opens closes items items.given

theorem ReadsItems.given : ∀ {n ts es m}, ReadsItems n ts es m → es ≠ [] → ItemsGiven n ts es m
  | _, _, _, _, .none, filled => absurd rfl filled
  | _, _, _, _, .last item, _ => itemsGiven_last item.given
  | _, _, _, _, .more item separated rest follows, _ =>
    itemsGiven_more item.given separated (rest.given follows)

end

end Scriptlet
