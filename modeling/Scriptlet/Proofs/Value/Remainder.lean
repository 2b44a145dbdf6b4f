import Scriptlet.Value.Arithmetic

/-!
The remainder of integers. The one that division cuts off toward zero has the sign of what is
divided; moved by the divisor where the signs differ it is floored, and the sum never overflows. So
there is a remainder for every divisor but zero, with one more refusal: the least integer has none
by minus one, since the quotient is what is checked and that one does not fit.
-/

namespace Scriptlet

-- A remainder that lies between zero and the divisor.
def Floored (a b r : Int) : Prop := b ∣ a - r ∧ (0 ≤ r ∧ r < b ∨ b < r ∧ r ≤ 0)

namespace Floored

variable {a b r r' : Int}

-- Two remainders differ by a multiple of the divisor that is smaller than it.
theorem unique (first : Floored a b r) (second : Floored a b r') : r = r' := by
  have multiple : b ∣ r - r' := by
    have apart : r - r' = (a - r') - (a - r) := by omega
    rw [apart]
    exact Int.dvd_sub second.1 first.1
  have small : (r - r').natAbs < b.natAbs := by
    obtain ⟨-, between⟩ := first
    obtain ⟨-, between'⟩ := second
    omega
  have nothing : r - r' = 0 := Int.eq_zero_of_dvd_of_natAbs_lt_natAbs multiple small
  omega

theorem of_correction (divides : b ∣ a - r) (small : r.natAbs < b.natAbs) :
    Floored a b (if r ≠ 0 ∧ ¬ (r < 0 ↔ b < 0) then r + b else r) := by
  split
  · rename_i apart
    refine ⟨?_, by omega⟩
    have moved : a - (r + b) = a - r - b := by omega
    rw [moved]
    exact Int.dvd_sub divides (Int.dvd_refl b)
  · rename_i alike
    exact ⟨divides, by omega⟩

end Floored

theorem fmod_floored (a : Int) {b : Int} (divisor : b ≠ 0) : Floored a b (a.fmod b) := by
  refine ⟨Int.dvd_self_sub_fmod, ?_⟩
  rcases Int.lt_or_gt_of_ne divisor with negative | positive
  · have flipped := Int.neg_fmod_neg a b
    have least := Int.fmod_nonneg_of_pos (-a) (Int.neg_pos_of_neg negative)
    have most := Int.fmod_lt_of_pos (-a) (Int.neg_pos_of_neg negative)
    omega
  · exact .inl ⟨Int.fmod_nonneg_of_pos a positive, Int.fmod_lt_of_pos a positive⟩

theorem toInt_eq_zero {n : Int64} : n.toInt = 0 ↔ n = 0 := by
  rw [← Int64.toInt_zero, Int64.toInt_inj]

theorem toInt_neg_iff {n : Int64} : n < 0 ↔ n.toInt < 0 := by
  rw [Int64.lt_iff_toInt_lt, Int64.toInt_zero]

theorem toInt_add_of_signs {n m : Int64} (apart : ¬ (n.toInt < 0 ↔ m.toInt < 0)) :
    (n + m).toInt = n.toInt + m.toInt := by
  have bounds := And.intro (Int64.le_toInt n) (Int64.toInt_lt n)
  have bounds' := And.intro (Int64.le_toInt m) (Int64.toInt_lt m)
  rw [Int64.toInt_add]
  apply Int.bmod_eq_of_le <;> omega

namespace Integer

variable {a b r : Int64}

theorem ofInt?_eq_none_iff {n : Int} : ofInt? n = none ↔ ¬ (least ≤ n ∧ n ≤ greatest) := by
  unfold ofInt?
  split <;> simp_all

-- A quotient is no larger than what is divided. So only that of the least integer can be too large,
-- and only where the sign changes and the size does not.
theorem div?_eq_none_iff : div? a b = none ↔ a.toInt = least ∧ b.toInt = -1 := by
  have low := Int64.le_toInt a
  have high := Int64.toInt_lt a
  rw [div?, ofInt?_eq_none_iff]
  constructor
  · intro outside
    unfold least greatest at *
    have size : (a.toInt.tdiv b.toInt).natAbs = a.toInt.natAbs / b.toInt.natAbs :=
      Int.natAbs_tdiv a.toInt b.toInt
    have smaller := Int.natAbs_tdiv_le_natAbs a.toInt b.toInt
    have lowest : a.toInt = -9223372036854775808 := by omega
    have kept : a.toInt.natAbs ≤ a.toInt.natAbs / b.toInt.natAbs := by omega
    have unit : b.toInt = 1 ∨ b.toInt = -1 := by
      rcases Nat.lt_trichotomy b.toInt.natAbs 1 with zero | one | more
      · rw [Nat.lt_one_iff.1 zero, Nat.div_zero] at kept
        omega
      · omega
      · exact absurd kept (Nat.not_le.2 (Nat.div_lt_self (by omega) more))
    rcases unit with same | changed
    · rw [same, Int.tdiv_one] at outside
      omega
    · exact ⟨lowest, changed⟩
  · rintro ⟨lowest, changed⟩
    rw [lowest, changed]
    decide

theorem mod?_eq_none_iff : mod? a b = none ↔ a.toInt = least ∧ b.toInt = -1 := by
  rw [mod?, rem?, Option.map_eq_none_iff, Option.map_eq_none_iff, div?_eq_none_iff]

theorem toInt_correction {r b : Int64} :
    (if r != 0 && (decide (r < 0) != decide (b < 0)) then r + b else r).toInt =
      if r.toInt ≠ 0 ∧ ¬ (r.toInt < 0 ↔ b.toInt < 0) then r.toInt + b.toInt else r.toInt := by
  have corrected : (r != 0 && (decide (r < 0) != decide (b < 0))) = true ↔
      r.toInt ≠ 0 ∧ ¬ (r.toInt < 0 ↔ b.toInt < 0) := by
    rw [Bool.and_eq_true, bne_iff_ne, bne_iff_ne, ne_eq, ← toInt_eq_zero, ne_eq, decide_eq_decide,
      toInt_neg_iff, toInt_neg_iff]
  by_cases apart : r.toInt ≠ 0 ∧ ¬ (r.toInt < 0 ↔ b.toInt < 0)
  · rw [if_pos (corrected.2 apart), if_pos apart, toInt_add_of_signs apart.2]
  · rw [if_neg (mt corrected.1 apart), if_neg apart]

theorem mod?_floored (divisor : b ≠ 0) (found : mod? a b = some r) :
    Floored a.toInt b.toInt r.toInt := by
  have whole : b.toInt ≠ 0 := mt toInt_eq_zero.1 divisor
  obtain ⟨cut, left, rfl⟩ := Option.map_eq_some_iff.1 found
  obtain ⟨quotient, -, rfl⟩ := Option.map_eq_some_iff.1 left
  have small : (a.toInt.tmod b.toInt).natAbs < b.toInt.natAbs := by
    rw [Int.natAbs_tmod]
    exact Nat.mod_lt _ (Int.natAbs_pos.2 whole)
  rw [toInt_correction, Int64.toInt_mod]
  exact .of_correction Int.dvd_self_sub_tmod small

theorem mod?_eq_fmod (divisor : b ≠ 0) (found : mod? a b = some r) :
    r.toInt = a.toInt.fmod b.toInt :=
  (mod?_floored divisor found).unique (fmod_floored _ (mt toInt_eq_zero.1 divisor))

end Integer

namespace Value

variable {v w : Value} {a b : Int64}

-- The integer that an integer, a state or `empty` counts as.
def integral? : Value → Option Int64
  | integer n => some n
  | state b => some (if b then 1 else 0)
  | empty => some 0
  | point _ | text _ | list _ | unknown => none

theorem applyBinary_integral {op : Arithmetic} (noQuotient : op ≠ .divide)
    (left : v.integral? = some a) (right : w.integral? = some b) :
    applyBinary (.arithmetic op) v w = (integerArithmetic op a b).map integer := by
  cases v with
  | integer | state | empty =>
    cases w with
    | integer | state | empty =>
      cases left
      cases right
      simp [applyBinary, isUnknown, arithmetic, numericArithmetic, arithmeticMode, noQuotient, tag,
        number, Integer.ofBool]
    | point | text | list | unknown => cases right
  | point | text | list | unknown => cases left

theorem applyBinary_modulo_eq (left : v.integral? = some a) (right : w.integral? = some b)
    (divisor : b ≠ 0) : applyBinary (.arithmetic .modulo) v w =
      (Integer.mod? a b).elim (.error (.integerOverflow .modulo a b)) fun r => .ok (integer r) := by
  rw [applyBinary_integral Arithmetic.noConfusion left right, integerArithmetic, if_neg divisor]
  cases Integer.mod? a b <;> rfl

-- The remainder of what counts as integers is floored, and there is one unless the divisor is zero
-- or the quotient does not fit.
theorem applyBinary_modulo (left : v.integral? = some a) (right : w.integral? = some b) :
    (b ≠ 0 → ¬ (a.toInt = Integer.least ∧ b.toInt = -1) →
      ∃ r : Int64, applyBinary (.arithmetic .modulo) v w = .ok (integer r) ∧
        Floored a.toInt b.toInt r.toInt) ∧
    (b = 0 → applyBinary (.arithmetic .modulo) v w = .error .divisionByZero) ∧
    (a.toInt = Integer.least ∧ b.toInt = -1 →
      applyBinary (.arithmetic .modulo) v w = .error (.integerOverflow .modulo a b)) := by
  refine ⟨?_, ?_, ?_⟩
  · intro divisor fits
    obtain ⟨r, found⟩ := Option.ne_none_iff_exists'.1 (mt Integer.mod?_eq_none_iff.1 fits)
    refine ⟨r, ?_, Integer.mod?_floored divisor found⟩
    rw [applyBinary_modulo_eq left right divisor, found]
    rfl
  · rintro rfl
    rw [applyBinary_integral Arithmetic.noConfusion left right]
    rfl
  · intro overflow
    have divisor : b ≠ 0 := by
      rintro rfl
      exact absurd overflow.2 (by decide)
    rw [applyBinary_modulo_eq left right divisor, Integer.mod?_eq_none_iff.2 overflow]
    rfl

theorem negative_modulo_three :
    (integer (-7)).integral? = some (-7) ∧ (integer 3).integral? = some 3 ∧
      ∃ r : Int64, applyBinary (.arithmetic .modulo) (integer (-7)) (integer 3) = .ok (integer r) ∧
        Floored (-7) 3 r.toInt :=
  ⟨rfl, rfl, (applyBinary_modulo (a := -7) (b := 3) rfl rfl).1 (by decide) (by decide)⟩

-- The remainder would be zero, which fits.
theorem least_modulo_refused : ¬ ∀ (v w : Value) (a b : Int64), v.integral? = some a →
    w.integral? = some b → b ≠ 0 →
      ∃ r : Int64, applyBinary (.arithmetic .modulo) v w = .ok (integer r) ∧
        Floored a.toInt b.toInt r.toInt := by
  intro total
  obtain ⟨r, found, -⟩ := total (integer Int64.minValue) (integer (-1)) _ _ rfl rfl (by decide)
  have overflow : Integer.mod? Int64.minValue (-1) = none := by decide
  rw [applyBinary_modulo_eq rfl rfl (by decide), overflow] at found
  cases found

end Value

end Scriptlet
