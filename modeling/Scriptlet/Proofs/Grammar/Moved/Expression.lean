import Scriptlet.Proofs.Grammar.Sound.Expression
import Scriptlet.Proofs.Tree.Moved

/-!
Reading does not depend on where a text stands. When all tokens are moved down and the next free
number is a greater one, every parsing step ends as before: what it gives has its spans moved down
and its numbers raised, and a fault is the same one, moved down. Here this is shown for the small
steps and for expressions, whatever the grammar.
-/

namespace Scriptlet

def Stop.down (lines : Nat) : Stop → Stop
  | .fault f => .fault (f.down lines)
  | .exhausted => .exhausted

namespace Parse

-- How far to move, and what ends before the first token then.
structure Shift where
  lines : Nat
  ids : Nat
  before : Option Position

namespace Shift

def cursor (σ : Shift) (c : Cursor) : Cursor :=
  ⟨(c.previous.map (Position.down σ.lines)).or σ.before, c.current.down σ.lines,
    c.ahead.map (Token.down σ.lines)⟩

def state (σ : Shift) (s : ParseState) : ParseState := ⟨σ.cursor s.cursor, s.nextId + σ.ids⟩

def result {α : Type} (σ : Shift) (f : α → α) :
    EStateM.Result Stop ParseState α → EStateM.Result Stop ParseState α
  | .ok a s => .ok (f a) (σ.state s)
  | .error stop s => .error (stop.down σ.lines) (σ.state s)

variable {σ : Shift} {c : Cursor} {s : ParseState}

theorem cursor_advance : (σ.cursor c).advance = σ.cursor c.advance := by
  obtain ⟨previous, current, ahead⟩ := c
  cases ahead <;> rfl

theorem cursor_peek {n : Nat} : (σ.cursor c).peek n = (c.peek n).down σ.lines := by
  unfold Cursor.peek Shift.cursor
  rw [← List.map_take]
  exact List.getLastD_map

end Shift

-- What passing a token and handing out a number leave true.
structure Stable (P : ParseState → Prop) : Prop where
  advance : ∀ {s}, P s → P { s with cursor := s.cursor.advance }
  number : ∀ {s}, P s → P { s with nextId := s.nextId + 1 }

-- From a state with `P` the second step does further down what the first one does, and what the
-- first one leaves has `Q`.
structure Moves {α : Type} (σ : Shift) (P Q : ParseState → Prop) (f : α → α) (x y : Parse α) :
    Prop where
  run : ∀ {s}, P s → y.run (σ.state s) = σ.result f (x.run s)
  keeps : ∀ {s a t}, P s → x.run s = .ok a t → Q t

namespace Moves

variable {α β : Type} {σ : Shift} {P Q R : ParseState → Prop} {f : α → α} {g : β → β}
  {x y : Parse α} {span : Span} {position : Position}

theorem bind {h k : α → Parse β} (first : Moves σ P Q f x y)
    (next : ∀ a, Moves σ Q R g (h a) (k (f a))) : Moves σ P R g (x >>= h) (y >>= k) := by
  constructor
  · intro s pre
    rw [EStateM.run_bind, EStateM.run_bind, first.run pre]
    cases ran : x.run s with
    | ok a t => exact (next a).run (first.keeps pre ran)
    | error stop t => rfl
  · intro s b t pre ran
    obtain ⟨a, middle, read, ran⟩ := bind_ok.1 ran
    exact (next a).keeps (first.keeps pre read) ran

theorem before (moves : Moves σ P Q f x y) (pre : ∀ {s}, R s → P s) : Moves σ R Q f x y :=
  ⟨fun holds => moves.run (pre holds), fun holds ran => moves.keeps (pre holds) ran⟩

theorem after (moves : Moves σ P Q f x y) (post : ∀ {s}, Q s → R s) : Moves σ P R f x y :=
  ⟨moves.run, fun holds ran => post (moves.keeps holds ran)⟩

theorem pure {a : α} : Moves σ P P f (pure a) (pure (f a)) := by
  constructor
  · intro s pre
    rfl
  · intro s b t pre ran
    cases ran
    exact pre

theorem throw {stop : Stop} :
    Moves σ P Q f (throw stop) (throw (stop.down σ.lines)) := by
  constructor
  · intro s pre
    rfl
  · intro s b t pre ran
    cases ran

theorem exhausted : Moves σ P Q f exhausted exhausted := throw

theorem cursor : Moves σ P P σ.cursor cursor cursor := by
  constructor
  · intro s pre
    rfl
  · intro s c t pre ran
    cases ran
    exact pre

theorem current : Moves σ P P (Token.down σ.lines) current current := cursor.bind fun _ => .pure

theorem kind : Moves σ P P id kind kind := cursor.bind fun _ => .pure

theorem failWith {message : String} : Moves σ P Q f (failWith message) (failWith message) :=
  cursor.bind fun _ => .throw

theorem advance (stable : Stable P) : Moves σ P P (Token.down σ.lines) advance advance := by
  constructor
  · intro s pre
    change EStateM.Result.ok _ _ = EStateM.Result.ok _ _
    rw [Shift.state, Shift.cursor_advance]
    rfl
  · intro s token t pre ran
    cases ran
    exact stable.advance pre

theorem newNode (stable : Stable P) :
    Moves σ P P (Node.moved σ.lines σ.ids) (newNode span) (newNode (span.down σ.lines)) := by
  constructor
  · intro s pre
    change EStateM.Result.ok _ _ = EStateM.Result.ok _ _
    simp only [Shift.state, Node.moved]
    rw [Nat.add_right_comm]
  · intro s node t pre ran
    cases ran
    exact stable.number pre

theorem expectOr (stable : Stable P) {kind : TokenKind} {otherwise : Cursor → Fault}
    (moved : ∀ c, otherwise (σ.cursor c) = (otherwise c).down σ.lines) :
    Moves σ P P (Token.down σ.lines) (expectOr kind otherwise) (expectOr kind otherwise) := by
  refine cursor.bind fun c => ?_
  change Moves _ _ _ _ _ (if c.kind = kind then _ else _)
  split
  · exact .advance stable
  · rw [moved]
    exact .throw

theorem expect (stable : Stable P) {kind : TokenKind} :
    Moves σ P P (Token.down σ.lines) (expect kind) (expect kind) :=
  expectOr stable fun _ => rfl

theorem expectNamed (stable : Stable P) {kind : TokenKind} {message : String} :
    Moves σ P P (Token.down σ.lines) (expectNamed kind message) (expectNamed kind message) :=
  expectOr stable fun _ => rfl

theorem accept (stable : Stable P) {kind : TokenKind} :
    Moves σ P P id (accept kind) (accept kind) := by
  refine Moves.kind.bind fun k => ?_
  change Moves _ _ _ _ _ (if k = kind then _ else _)
  split
  · exact (Moves.advance stable).bind fun _ => .pure
  · exact .pure

theorem leaf (stable : Stable P) : Moves σ P P (Expr.moved σ.lines σ.ids) leaf leaf := by
  refine Moves.current.bind fun token => ?_
  have same : leafOf (token.down σ.lines) = leafOf token := rfl
  rw [same]
  cases built : leafOf token with
  | error cause => exact .throw
  | ok build =>
    refine (Moves.advance stable).bind fun _ => (Moves.newNode stable).bind fun node => ?_
    have moved : build (node.moved σ.lines σ.ids) = (build node).moved σ.lines σ.ids := by
      rcases leafOf_ok built with ⟨-, rfl⟩ | ⟨value, rfl⟩ <;> rfl
    rw [moved]
    exact .pure

end Moves

-- The steps of an expression with this budget do the same further down.
structure ExpressionMoves (g : Grammar) (σ : Shift) (P : ParseState → Prop) (fuel : Nat) :
    Prop where
  expression : ∀ least, Moves σ P P (Expr.moved σ.lines σ.ids) (expression g fuel least)
    (expression g fuel least)
  continuation : ∀ least left, Moves σ P P (Expr.moved σ.lines σ.ids)
    (continuation g fuel least left) (continuation g fuel least (left.moved σ.lines σ.ids))
  opening : ∀ rule, Moves σ P P (Expr.moved σ.lines σ.ids) (opening g fuel rule)
    (opening g fuel rule)
  joining : ∀ rule left power, Moves σ P P (Expr.moved σ.lines σ.ids)
    (joining g fuel rule left power) (joining g fuel rule (left.moved σ.lines σ.ids) power)
  itemsUntil : ∀ close, Moves σ P P (Expr.movedAll σ.lines σ.ids) (itemsUntil g fuel close)
    (itemsUntil g fuel close)
  items : Moves σ P P (Expr.movedAll σ.lines σ.ids) (items g fuel) (items g fuel)

namespace ExpressionMoves

variable {g : Grammar} {σ : Shift} {P : ParseState → Prop} {fuel : Nat}

theorem expression_succ (moves : ExpressionMoves g σ P fuel) (least : Power) :
    Moves σ P P (Expr.moved σ.lines σ.ids) (Parse.expression g (fuel + 1) least)
      (Parse.expression g (fuel + 1) least) := by
  simp only [Parse.expression]
  refine Moves.current.bind fun token => ?_
  have same : g.opening (token.down σ.lines).kind = g.opening token.kind := rfl
  rw [same]
  cases g.opening token.kind with
  | none => exact .throw
  | some rule => exact (moves.opening rule).bind fun left => moves.continuation least left

theorem continuation_succ (moves : ExpressionMoves g σ P fuel) (least : Power) (left : Expr) :
    Moves σ P P (Expr.moved σ.lines σ.ids) (Parse.continuation g (fuel + 1) least left)
      (Parse.continuation g (fuel + 1) least (left.moved σ.lines σ.ids)) := by
  simp only [Parse.continuation]
  refine Moves.current.bind fun token => ?_
  have same : (token.down σ.lines).kind = token.kind := rfl
  rw [same]
  split
  · cases g.joining token.kind with
    | none => exact .throw
    | some rule =>
      exact (moves.joining rule left _).bind fun joined => moves.continuation least joined
  · exact .pure

theorem opening_succ (stable : Stable P) (moves : ExpressionMoves g σ P fuel)
    (rule : OpeningRule) : Moves σ P P (Expr.moved σ.lines σ.ids) (Parse.opening g (fuel + 1) rule)
      (Parse.opening g (fuel + 1) rule) := by
  cases rule with
  | leaf => exact .leaf stable
  | signed =>
    simp only [Parse.opening]
    refine (Moves.advance stable).bind fun sign => (moves.expression _).bind fun operand => ?_
    rw [Expr.moved_span]
    exact (Moves.newNode stable).bind fun node => .pure
  | grouping =>
    simp only [Parse.opening]
    refine (Moves.advance stable).bind fun opener => Moves.cursor.bind fun c => ?_
    have same : prefixCast? (σ.cursor c) = prefixCast? c := by
      unfold prefixCast?
      rw [Shift.cursor_peek]
      rfl
    rw [same]
    cases prefixCast? c with
    | some target =>
      refine (Moves.advance stable).bind fun _ => (Moves.expect stable).bind fun _ =>
        (moves.expression _).bind fun operand => ?_
      rw [Expr.moved_span]
      exact (Moves.newNode stable).bind fun node => .pure
    | none =>
      exact (moves.expression _).bind fun inner => (Moves.expect stable).bind fun closer =>
        (Moves.newNode stable).bind fun node => .pure
  | cast =>
    simp only [Parse.opening]
    refine (Moves.advance stable).bind fun token => ?_
    have same : castTarget? (token.down σ.lines).kind = castTarget? token.kind := rfl
    rw [same]
    cases castTarget? token.kind with
    | none => exact .throw
    | some target =>
      exact (Moves.expectNamed stable).bind fun _ => (moves.expression _).bind fun operand =>
        (Moves.expect stable).bind fun closer => (Moves.newNode stable).bind fun node => .pure
  | list =>
    simp only [Parse.opening]
    exact (Moves.advance stable).bind fun opener => (moves.itemsUntil _).bind fun items =>
      (Moves.expect stable).bind fun closer => (Moves.newNode stable).bind fun node => .pure

theorem joining_succ (stable : Stable P) (moves : ExpressionMoves g σ P fuel) (rule : JoiningRule)
    (left : Expr) (power : Power) :
    Moves σ P P (Expr.moved σ.lines σ.ids) (Parse.joining g (fuel + 1) rule left power)
      (Parse.joining g (fuel + 1) rule (left.moved σ.lines σ.ids) power) := by
  cases rule with
  | binary =>
    simp only [Parse.joining]
    refine Moves.kind.bind fun kind => ?_
    have same : binaryOp? (id kind) = binaryOp? kind := rfl
    rw [same]
    cases binaryOp? kind with
    | none => exact .failWith
    | some op =>
      refine (Moves.advance stable).bind fun _ => (moves.expression _).bind fun right => ?_
      rw [Expr.moved_span, Expr.moved_span]
      exact (Moves.newNode stable).bind fun node => .pure
  | call =>
    cases left with
    | identifier callee name =>
      simp only [Parse.joining, Expr.moved]
      exact (Moves.advance stable).bind fun _ => (moves.itemsUntil _).bind fun items =>
        (Moves.expect stable).bind fun closer => (Moves.newNode stable).bind fun node => .pure
    | _ => exact Moves.cursor.bind fun c => .throw

theorem itemsUntil_succ (moves : ExpressionMoves g σ P fuel) (close : TokenKind) :
    Moves σ P P (Expr.movedAll σ.lines σ.ids) (Parse.itemsUntil g (fuel + 1) close)
      (Parse.itemsUntil g (fuel + 1) close) := by
  simp only [Parse.itemsUntil]
  refine Moves.kind.bind fun kind => ?_
  change Moves _ _ _ _ _ (if kind = close then _ else _)
  split
  · exact .pure
  · exact moves.items

theorem items_succ (stable : Stable P) (moves : ExpressionMoves g σ P fuel) :
    Moves σ P P (Expr.movedAll σ.lines σ.ids) (Parse.items g (fuel + 1))
      (Parse.items g (fuel + 1)) := by
  simp only [Parse.items]
  refine (moves.expression _).bind fun item => (Moves.accept stable).bind fun more => ?_
  cases more with
  | false => exact .pure
  | true => exact moves.items.bind fun others => .pure

theorem all (stable : Stable P) (fuel : Nat) : ExpressionMoves g σ P fuel := by
  induction fuel with
  | zero => constructor <;> intros <;> exact .exhausted
  | succ fuel moves =>
    exact ⟨expression_succ moves, continuation_succ moves, opening_succ stable moves,
      joining_succ stable moves, itemsUntil_succ moves, items_succ stable moves⟩

end ExpressionMoves

end Parse

end Scriptlet
