import Scriptlet.Proofs.Outcome
import Scriptlet.Proofs.Simulation.Image
import Scriptlet.Proofs.Simulation.Quotient
import Scriptlet.Proofs.Value.Remainder

/-!
Arithmetic on values and on their images. Integers of the language are exact or refused, so they
are the whole numbers of Python as long as the check finds nothing wrong.
-/

namespace Scriptlet

open Target

variable {v w u : Value} {p q : Object} {op : Arithmetic}

theorem some_of_checked {result : Option Int64} {failure : ValueFailure} {n : Int64}
    (checked : (match result with | some n => Except.ok n | none => .error failure) = .ok n) :
    result = some n := by
  cases result with
  | none => cases checked
  | some m => cases checked; rfl

theorem intArithmetic_eq {a b n : Int64} (noQuotient : op ≠ .divide)
    (outcome : Value.integerArithmetic op a b = .ok n) :
    Object.intArithmetic op a.toInt b.toInt = .ok (.int n.toInt) := by
  cases op with
  | add => rw [Object.intArithmetic, Integer.toInt_ofInt? (some_of_checked outcome)]
  | subtract => rw [Object.intArithmetic, Integer.toInt_ofInt? (some_of_checked outcome)]
  | multiply => rw [Object.intArithmetic, Integer.toInt_ofInt? (some_of_checked outcome)]
  | divide => exact absurd rfl noQuotient
  | modulo =>
    unfold Value.integerArithmetic at outcome
    dsimp only at outcome
    split at outcome
    · cases outcome
    · rename_i divisor
      have whole : b.toInt ≠ 0 := fun zero => divisor (toInt_eq_zero.1 zero)
      have found := some_of_checked outcome
      rw [Object.intArithmetic, if_neg whole, Integer.mod?_eq_fmod divisor found]

-- Neither text nor a list.
def Value.Countable (v : Value) : Prop := v.tag ≠ .list ∧ v.tag ≠ .text

-- `empty` counts as zero, and lowering writes it so.
def counted : Object → Object
  | .none => .int 0
  | p => p

theorem Image.counted (image : Image v p) (countable : v.Countable) :
    ∃ m : Int64, v.number .integer = .integer m ∧ (counted p).int? = some m.toInt ∧
      (v.number .point).toPoint = Point.ofInteger m := by
  cases image with
  | integer n => exact ⟨n, rfl, rfl, rfl⟩
  | state b =>
    refine ⟨Integer.ofBool b, rfl, by rw [toInt_ofBool]; rfl, ?_⟩
    cases b <;> decide +kernel
  | empty => exact ⟨0, rfl, rfl, by decide +kernel⟩
  | text => exact absurd rfl countable.2
  | list => exact absurd rfl countable.1

theorem isWord_toInt (n : Int64) : Object.isWord n.toInt = true := by
  have low := Int64.le_toInt n
  have high := Int64.toInt_lt n
  unfold Object.isWord
  simp only [decide_eq_true_eq]
  have size : Nat.pow 2 64 = 18446744073709551616 := by decide
  omega

-- What a variable may hold. A point may stay in a variable as long as nothing reads it. It is then
-- a quotient of integers, and Python has the quotient of the same numbers there. The check divides
-- what is left of them in double precision, so only exact operands make the two the same.
inductive Held : Value → Object → Prop where
  | image {v : Value} {p : Object} (image : Image v p) : Held v p
  | quotient {a b : Int64} {x y : Float} (divisor : b.toInt ≠ 0)
      (point : x = Point.ofInteger a / Point.ofInteger b)
      (float : y = Object.nearestQuotient a.toInt b.toInt)
      (same : Point.IsExact a.toInt → Point.IsExact b.toInt → x = y) :
      Held (.point x) (.float y)

theorem Held.pointless (held : Held v p) (pointless : v.hasPoint = false) : Image v p := by
  cases held with
  | image image => exact image
  | quotient => cases pointless

theorem log2_toInt_le (n : Int64) : n.toInt.natAbs.log2 ≤ 63 := by
  have low := Int64.le_toInt n
  have high := Int64.toInt_lt n
  exact Point.log2_le_log2 (by omega : n.toInt.natAbs ≤ 9223372036854775808)

theorem held_quotient (a : Int64) {b : Int64} (divisor : b.toInt ≠ 0) :
    Held (.point (Point.ofInteger a / Point.ofInteger b))
      (.float (Object.nearestQuotient a.toInt b.toInt)) :=
  .quotient divisor rfl rfl (Point.quotient_exact divisor (log2_toInt_le a) (log2_toInt_le b))

theorem divided_eq {a b : Int64} {x : Float}
    (outcome : Value.pointArithmetic .divide (Point.ofInteger a) (Point.ofInteger b) = .ok x) :
    b.toInt ≠ 0 ∧ x = Point.ofInteger a / Point.ofInteger b := by
  have divisor : b.toInt ≠ 0 := by
    intro zero
    have none : (Point.ofInteger b == 0.0) = true := by
      rw [toInt_eq_zero.1 zero]
      decide +kernel
    simp only [Value.pointArithmetic, none] at outcome
    cases outcome
  unfold Value.pointArithmetic at outcome
  dsimp only at outcome
  split at outcome
  · cases outcome
  · split at outcome
    · cases outcome
      exact ⟨divisor, rfl⟩
    · cases outcome

theorem numericArithmetic_held (left : Image v p) (right : Image w q) (first : v.Countable)
    (second : w.Countable) (outcome : Value.numericArithmetic op v w = .ok u) :
    ∃ r, (counted p).arithmetic op (counted q) = .ok r ∧ Held u r ∧ u.Countable := by
  obtain ⟨m, number, whole, point⟩ := left.counted first
  obtain ⟨k, number', whole', point'⟩ := right.counted second
  have ints : (counted p).arithmetic op (counted q) = Object.intArithmetic op m.toInt k.toInt := by
    simp only [Object.arithmetic, whole, whole']
  have noPoint : v.tag ≠ .point ∧ w.tag ≠ .point := by
    refine ⟨?_, ?_⟩
    · cases left <;> exact Tag.noConfusion
    · cases right <;> exact Tag.noConfusion
  rw [ints]
  unfold Value.numericArithmetic at outcome
  by_cases quotient : op = .divide
  · subst quotient
    have mode : Value.arithmeticMode .divide v w = .point := by simp [Value.arithmeticMode]
    simp only [mode, point, point'] at outcome
    obtain ⟨x, divided, rfl⟩ := map_eq_ok outcome
    obtain ⟨divisor, rfl⟩ := divided_eq divided
    refine ⟨_, ?_, held_quotient m divisor, Tag.noConfusion, Tag.noConfusion⟩
    rw [Object.intArithmetic, if_neg divisor, isWord_toInt, isWord_toInt]
    rfl
  · have mode : Value.arithmeticMode op v w = .integer := by
      simp [Value.arithmeticMode, quotient, noPoint]
    simp only [mode, number, number'] at outcome
    obtain ⟨n, result, rfl⟩ := map_eq_ok outcome
    exact ⟨_, intArithmetic_eq quotient result, .image (.integer n), Tag.noConfusion,
      Tag.noConfusion⟩

-- What arithmetic that goes well has done.
inductive Computed (op : Arithmetic) (v w u : Value) : Prop where
  | joined {vs ws} (left : v = .list vs) (right : w = .list ws) (added : op = .add)
      (result : u = .list (vs ++ ws))
  | concatenated (left : v.tag ≠ .list) (right : w.tag ≠ .list)
      (texts : v.tag = .text ∨ w.tag = .text) (added : op = .add)
      (result : u = .text (v.shown ++ w.shown))
  | counted (left : v.Countable) (right : w.Countable)
      (result : Value.numericArithmetic op v w = .ok u)

theorem tag_ne_list (other : ∀ items, v = .list items → False) : v.tag ≠ .list := by
  cases v <;> first | exact Tag.noConfusion | exact absurd rfl (other _)

theorem tag_ne_text (other : ∀ s, v = .text s → False) : v.tag ≠ .text := by
  cases v <;> first | exact Tag.noConfusion | exact absurd rfl (other _)

theorem tag_ne_point (pointless : v.hasPoint = false) : v.tag ≠ .point := by
  cases v with
  | point => cases pointless
  | _ => exact Tag.noConfusion

theorem computed (outcome : Value.arithmetic op v w = .ok u) : Computed op v w u := by
  unfold Value.arithmetic at outcome
  split at outcome
  · split at outcome
    · cases outcome
      exact .joined rfl rfl ‹op = .add› rfl
    · cases outcome
  · split at outcome <;> cases outcome
  · split at outcome <;> cases outcome
  · rename_i noList
    split at outcome
    · cases outcome
      exact .concatenated Tag.noConfusion (tag_ne_list noList) (.inl rfl) ‹op = .add› rfl
    · cases outcome
  · rename_i noList _
    split at outcome
    · cases outcome
      exact .concatenated (tag_ne_list noList) Tag.noConfusion (.inr rfl) ‹op = .add› rfl
    · cases outcome
  · rename_i noList noText noList' noText' _
    exact .counted ⟨tag_ne_list noList, tag_ne_text noText⟩
      ⟨tag_ne_list noList', tag_ne_text noText'⟩
      outcome

end Scriptlet
