import Scriptlet.Proofs.Grammar.Ending.Loops
import Scriptlet.Proofs.Grammar.Sound.Expression

namespace Scriptlet.Parse

open Grammar (standard)

-- The operators and argument lists that go on with an expression.
def joinedLoop (least : Power) : Loop Expr Expr where
  run fuel left := continuation standard fuel least left
  turn fuel left := do
    let token ← current
    if least.rank < (standard.powerOf token.kind).rank then
      match standard.joining token.kind with
      | none => refuse token
      | some rule =>
        return .again (← joining standard fuel rule left (standard.powerOf token.kind)) id
    else return .done left
  zero _ := rfl
  succ fuel left := by
    simp only [continuation, bind_assoc]
    congr
    funext token
    split
    · cases standard.joining token.kind with
      | none => rfl
      | some rule =>
        simp only [bind_assoc, pure_bind, Turn.finish, id_map]
    · rfl

-- The items of a list and the arguments of a call.
def itemLoop : Loop Unit (List Expr) :=
  .separated (fun fuel => expression standard fuel .default) (items standard) rfl fun _ => rfl

-- Expressions come to an end when at most `k` tokens are left.
def ExpressionsEnd (k : Nat) : Prop :=
  ∀ s, Within k s → ∀ least,
    Ends (fun fuel => expression standard fuel least) (4 * k) s fun _ s' => Advanced s s'

section Below

variable {k need : Nat} {s : ParseState}

theorem itemLoop_advances (ends : ExpressionsEnd k) (within : Within k s) :
    itemLoop.Advances (4 * k) s := Loop.separated_advances within (ends s within .default)

theorem itemsUntil_ends {close : TokenKind} (ends : ∀ j ≤ k, ExpressionsEnd j)
    (within : Within k s) :
    Ends (fun fuel => itemsUntil standard fuel close) (4 * k + 2) s fun _ _ => True := by
  refine .spend rfl ?_ (Nat.lt_succ_self _)
  refine .look kind_run ?_
  by_cases closes : s.cursor.kind = close
  · simp only [closes, reduceIte]
    exact .of_pure trivial
  · simp only [closes, reduceIte]
    exact itemLoop.ends (by omega) (fun j le _ => itemLoop_advances (ends j le)) () within

theorem leaf_ends (within : Within k s) (more : s.cursor.kind ≠ .eof) :
    Ends (fun _ => leaf) need s fun _ s' => Advanced s s' := by
  refine .look current_run ?_
  cases leafOf s.cursor.current with
  | error cause => exact .of_fault rfl
  | ok build => exact (advance_ends within more).bind_advanced within fun _ _ _ => node_ends

theorem prefixCast?_named {c : Cursor} {target : CastTarget}
    (found : prefixCast? c = some target) : c.kind.NamesType target := by
  unfold prefixCast? at found
  split at found
  · exact castTarget?_named found
  · cases found

theorem opening_ends (ends : ∀ j ≤ k, ExpressionsEnd j) (within : Within (k + 1) s)
    (more : s.cursor.kind ≠ .eof) (rule : OpeningRule) :
    Ends (fun fuel => opening standard fuel rule) (4 * k + 3) s fun _ s' => Advanced s s' := by
  refine .spend rfl ?_ (Nat.lt_succ_self _)
  have operand {s} (within : Within k s) (least : Power) :
      Ends (fun fuel => expression standard fuel least) (4 * k + 2) s fun _ s' => Advanced s s' :=
    (ends k (Nat.le_refl k) s within least).weaken (by omega)
  cases rule with
  | leaf => exact leaf_ends within more
  | signed =>
    refine (advance_ends within more).bind_advanced within fun sign s' within => ?_
    exact (operand within .unary).bind fun value _ _ _ => node_ends
  | grouping =>
    refine (advance_ends within more).bind_advanced within fun first s' within => ?_
    refine .look cursor_run ?_
    cases found : prefixCast? s'.cursor with
    | some target =>
      have more := NamesType.ne_eof (prefixCast?_named found)
      refine (advance_ends within more).bind_within within fun _ s' within => ?_
      refine (expectOr_ends within (by decide)).bind_within within fun _ s' within => ?_
      exact (operand within .unary).bind fun value _ _ _ => node_ends
    | none =>
      refine (operand within .default).bind_within within fun inner s' within => ?_
      exact (expectOr_ends within (by decide)).bind fun last _ _ _ => node_ends
  | cast =>
    refine (advance_ends within more).bind_advanced within fun type s' within => ?_
    cases castTarget? type.kind with
    | none => exact .of_fault rfl
    | some target =>
      refine (expectOr_ends within (by decide)).bind_within within fun _ s' within => ?_
      refine (operand within .default).bind_within within fun inner s' within => ?_
      exact (expectOr_ends within (by decide)).bind fun last _ _ _ => node_ends
  | list =>
    refine (advance_ends within more).bind_advanced within fun first s' within => ?_
    refine (itemsUntil_ends ends within).bind_within within fun items s' within => ?_
    exact (expectOr_ends within (by decide)).bind fun last _ _ _ => node_ends

theorem joining_ends (ends : ∀ j ≤ k, ExpressionsEnd j) (within : Within (k + 1) s)
    (more : s.cursor.kind ≠ .eof) (rule : JoiningRule) (left : Expr) (power : Power) :
    Ends (fun fuel => joining standard fuel rule left power) (4 * k + 3) s
      fun _ s' => Advanced s s' := by
  cases rule with
  | binary =>
    refine .spend rfl ?_ (Nat.lt_succ_self _)
    refine .look kind_run ?_
    cases binaryOp? s.cursor.kind with
    | none => exact .of_fault rfl
    | some op =>
      refine (advance_ends within more).bind_advanced within fun _ s' within => ?_
      have operand := (ends k (Nat.le_refl k) s' within power).weaken (Nat.le_add_right _ 2)
      exact operand.bind fun right _ _ _ => node_ends
  | call =>
    cases left with
    | identifier callee name =>
      refine .spend rfl ?_ (Nat.lt_succ_self _)
      refine (advance_ends within more).bind_advanced within fun _ s' within => ?_
      refine (itemsUntil_ends ends within).bind_within within fun arguments s' within => ?_
      exact (expectOr_ends within (by decide)).bind fun last _ _ _ => node_ends
    | _ => exact .spend rfl (.of_fault rfl) (Nat.lt_succ_self _)

theorem joinedLoop_advances {least : Power} (ends : ∀ j < k, ExpressionsEnd j)
    (within : Within k s) : (joinedLoop least).Advances (4 * k - 1) s := by
  intro left
  obtain ⟨k, rfl⟩ := Nat.exists_eq_add_one.2 within.pos
  refine .look current_run ?_
  by_cases tighter : least.rank < (standard.powerOf s.cursor.current.kind).rank
  · simp only [tighter, reduceIte]
    cases found : standard.joining s.cursor.current.kind with
    | none => exact .of_fault rfl
    | some rule =>
      refine (joining_ends (fun j le => ends j (Nat.lt_succ_of_le le)) within
        (joining_ne_eof found) rule left _).bind fun joined s' _ advanced => ?_
      exact .of_pure fun _ => advanced
  · simp only [tighter, reduceIte]
    exact .of_pure fun again => by cases again

end Below

theorem expression_ends (k : Nat) : ExpressionsEnd k := by
  induction k using Nat.strongRecOn with
  | ind k ih =>
    intro s within least
    obtain ⟨k, rfl⟩ := Nat.exists_eq_add_one.2 within.pos
    have below : ∀ j ≤ k, ExpressionsEnd j := fun j le => ih j (Nat.lt_succ_of_le le)
    refine .spend rfl ?_ (Nat.lt_succ_self (4 * k + 3))
    refine .look current_run ?_
    cases found : standard.opening s.cursor.current.kind with
    | none => exact .of_fault rfl
    | some rule =>
      have opened := opening_ends below within (opening_ne_eof found) rule
      refine opened.bind_advanced within fun left s' within => ?_
      have advances j (le : j ≤ k) s (within : Within j s) :
          (joinedLoop least).Advances (4 * j - 1) s :=
        joinedLoop_advances (fun i lt => below i (by omega)) within
      exact ((joinedLoop least).ends (by omega) advances left within).weaken (by omega)

end Scriptlet.Parse
