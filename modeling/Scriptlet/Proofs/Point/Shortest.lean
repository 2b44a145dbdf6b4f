import Mathlib.Algebra.Order.Field.Power
import Mathlib.Algebra.Order.Field.Rat
import Mathlib.Data.Nat.Cast.Order.Field
import Mathlib.Tactic.Linarith
import Mathlib.Tactic.Positivity
import Mathlib.Tactic.Ring
import Scriptlet.Point.Shortest

/-!
Shortest decimals tell point values apart. A decimal that is found for a value lies between the
midpoints to its neighbours, seventeen digits are always enough to find one, and no number lies
between the midpoints of two different values.
-/

namespace Scriptlet.Point

variable {m m' n count : Nat} {e e' place size : Int} {v : ℚ} {d : Decimal}

namespace Decimal

def value (d : Decimal) : ℚ := d.digits * (10 : ℚ) ^ d.exponent

theorem value_trimZeros (fuel : Nat) (d : Decimal) : (d.trimZeros fuel).value = d.value := by
  induction fuel generalizing d with
  | zero => rfl
  | succ fuel ih =>
    rw [trimZeros]
    split
    · rename_i zero
      obtain ⟨k, tenfold⟩ : ∃ k, d.digits = 10 * k := ⟨d.digits / 10, by omega⟩
      have shorter : d.digits / 10 = k := by omega
      rw [ih, value, value, shorter, tenfold, zpow_add_one₀ (by norm_num)]
      push_cast
      ring
    · rfl

end Decimal

-- Mantissa and exponent as they are stored.
structure Stored (m : Nat) (e : Int) : Prop where
  short : m < 2 * leadingBit
  least : leastExponent ≤ e
  leading : leadingBit ≤ m ∨ e = leastExponent

-- A quarter of the last place of the mantissa.
def quarter (e : Int) : ℚ := (2 : ℚ) ^ (e - 2)

theorem quarter_pos (e : Int) : 0 < quarter e := zpow_pos (by norm_num) _

-- The distance to the lower midpoint, in quarters.
def gap (m : Nat) : Nat := if m = leadingBit then 1 else 2

-- Numbers that round to `m * 2 ^ e`.
structure Near (m : Nat) (e : Int) (v : ℚ) : Prop where
  low : (4 * m - gap m) * quarter e ≤ v
  high : v ≤ (4 * m + 2) * quarter e
  ends : v = (4 * m - gap m) * quarter e ∨ v = (4 * m + 2) * quarter e → m % 2 = 0

-- The lower midpoint of a value is not below the upper one of a smaller mantissa, and where they
-- meet only one of the two values has an even mantissa.
theorem Near.not_lt (left : Near m e v) (right : Near m' e v) : ¬ m < m' := by
  intro below
  have chain : (4 * m' - gap m' : ℚ) ≤ 4 * m + 2 :=
    le_of_mul_le_mul_right (right.low.trans left.high) (quarter_pos e)
  have meet : 4 * m' ≤ 4 * m + 2 + gap m' := by
    exact_mod_cast sub_le_iff_le_add.1 chain
  have small : gap m' ≤ 2 := by
    unfold gap
    split <;> omega
  have next : m' = m + 1 := by omega
  have wide : gap m' = 2 := by omega
  have lower := right.low
  rw [next] at wide lower
  rw [wide] at lower
  have same : (4 * ((m + 1 : Nat) : ℚ) - (2 : Nat)) * quarter e = (4 * m + 2) * quarter e := by
    push_cast
    ring
  have end' : v = (4 * m + 2) * quarter e := le_antisymm left.high (same ▸ lower)
  have even := left.ends (.inr end')
  have even' := right.ends (.inl (by rw [next, wide, same, end']))
  omega

theorem Near.mantissa_unique (left : Near m e v) (right : Near m' e v) : m = m' := by
  have notBelow := left.not_lt right
  have notAbove := right.not_lt left
  omega

-- Above a smaller exponent there are only mantissas with the leading bit, and the gap below the
-- least of them is small.
theorem Near.exponent_le (stored : Stored m e) (stored' : Stored m' e') (left : Near m e v)
    (right : Near m' e' v) : e' ≤ e := by
  by_contra beyond
  have higher : e < e' := not_le.1 beyond
  have leading : leadingBit ≤ m' := by
    rcases stored'.leading with leading | lowest
    · exact leading
    · have least := stored.least
      omega
  have short := stored.short
  have bits : leadingBit = 4503599627370496 := rfl
  have doubled : 2 * quarter e ≤ quarter e' := by
    have step : 2 * quarter e = (2 : ℚ) ^ (e + 1 - 2) := by
      rw [quarter, show e + 1 - 2 = e - 2 + 1 by ring, zpow_add_one₀ (by norm_num)]
      ring
    rw [step]
    exact zpow_le_zpow_right₀ (by norm_num) (by omega)
  have positive : (0 : ℚ) ≤ 4 * m' - gap m' := by
    have small : gap m' ≤ 4 * m' := by
      unfold gap
      split <;> omega
    exact sub_nonneg.2 (by exact_mod_cast small)
  have lower : (2 * (4 * m' - gap m')) * quarter e ≤ v := by
    calc (2 * (4 * m' - gap m')) * quarter e = (4 * m' - gap m') * (2 * quarter e) := by ring
      _ ≤ (4 * m' - gap m') * quarter e' := mul_le_mul_of_nonneg_left doubled positive
      _ ≤ v := right.low
  have chain : (2 * (4 * m' - gap m') : ℚ) ≤ 4 * m + 2 :=
    le_of_mul_le_mul_right (lower.trans left.high) (quarter_pos e)
  have meet : 8 * m' ≤ 4 * m + 2 + 2 * gap m' := by
    have moved : (8 * m' : ℚ) ≤ 4 * m + 2 + 2 * gap m' := by linarith
    exact_mod_cast moved
  obtain ⟨smallest, narrow⟩ : m' = leadingBit ∧ gap m' = 1 := by
    by_cases smallest : m' = leadingBit
    · exact ⟨smallest, by rw [gap, if_pos smallest]⟩
    · rw [gap, if_neg smallest] at meet
      omega
  have greatest : m = 2 * leadingBit - 1 := by omega
  have same : (2 * (4 * m' - gap m') : ℚ) = 4 * m + 2 := by
    have whole : 8 * m' = 4 * m + 2 + 2 * gap m' := by omega
    have moved : (8 * m' : ℚ) = 4 * m + 2 + 2 * gap m' := by exact_mod_cast whole
    linarith
  rw [same] at lower
  have even := left.ends (.inr (le_antisymm left.high lower))
  omega

theorem Near.unique (stored : Stored m e) (stored' : Stored m' e') (left : Near m e v)
    (right : Near m' e' v) : m = m' ∧ e = e' := by
  have same : e = e' :=
    le_antisymm (right.exponent_le stored' stored left) (left.exponent_le stored stored' right)
  subst same
  exact ⟨left.mantissa_unique right, rfl⟩

-- The last binary place, in quarters, and the last decimal place, as multiples of one number.
def binaryUnit (e place : Int) : Nat := Nat.pow 2 (e - 2).toNat * Nat.pow 10 (-place).toNat

def decimalUnit (e place : Int) : Nat := Nat.pow 10 place.toNat * Nat.pow 2 (2 - e).toNat

theorem pow_toNat {b : ℚ} (nonzero : b ≠ 0) (k : Int) : b ^ k.toNat = b ^ (-k).toNat * b ^ k := by
  rw [← zpow_natCast, ← zpow_natCast, ← zpow_add₀ nonzero]
  congr 1
  omega

theorem units_scaled (e place : Int) : ∃ scale : ℚ, 0 < scale ∧
    (binaryUnit e place : ℚ) = scale * quarter e ∧
    (decimalUnit e place : ℚ) = scale * (10 : ℚ) ^ place := by
  refine ⟨(2 : ℚ) ^ (2 - e).toNat * (10 : ℚ) ^ (-place).toNat, by positivity, ?_, ?_⟩
  · have power := pow_toNat (by norm_num : (2 : ℚ) ≠ 0) (e - 2)
    rw [neg_sub] at power
    have cast : (binaryUnit e place : ℚ) = (2 : ℚ) ^ (e - 2).toNat * (10 : ℚ) ^ (-place).toNat := by
      simp [binaryUnit]
    rw [cast, power, quarter]
    ring
  · have power := pow_toNat (by norm_num : (10 : ℚ) ≠ 0) place
    have cast : (decimalUnit e place : ℚ) = (10 : ℚ) ^ place.toNat * (2 : ℚ) ^ (2 - e).toNat := by
      simp [decimalUnit]
    rw [cast, power]
    ring

theorem gap_le (positive : 0 < m) : gap m ≤ 4 * m := by
  unfold gap
  split <;> omega

theorem near_of_scaled (positive : 0 < m)
    (above : (4 * m - gap m) * binaryUnit e place ≤ n * decimalUnit e place)
    (below : n * decimalUnit e place ≤ (4 * m + 2) * binaryUnit e place)
    (ends : (4 * m - gap m) * binaryUnit e place = n * decimalUnit e place ∨
      n * decimalUnit e place = (4 * m + 2) * binaryUnit e place → m % 2 = 0) :
    Near m e (n * (10 : ℚ) ^ place) := by
  obtain ⟨scale, scaled, binary, decimal⟩ := units_scaled e place
  have value : scale * (n * (10 : ℚ) ^ place) = ((n * decimalUnit e place : Nat) : ℚ) := by
    push_cast
    rw [decimal]
    ring
  have low : scale * ((4 * m - gap m) * quarter e) =
      (((4 * m - gap m) * binaryUnit e place : Nat) : ℚ) := by
    push_cast [Nat.cast_sub (gap_le positive)]
    rw [binary]
    ring
  have high : scale * ((4 * m + 2) * quarter e) =
      (((4 * m + 2) * binaryUnit e place : Nat) : ℚ) := by
    push_cast
    rw [binary]
    ring
  constructor
  · refine le_of_mul_le_mul_left ?_ scaled
    rw [value, low]
    exact_mod_cast above
  · refine le_of_mul_le_mul_left ?_ scaled
    rw [value, high]
    exact_mod_cast below
  · intro reached
    refine ends (reached.imp (fun same => ?_) fun same => ?_)
    · rw [same, low] at value
      exact_mod_cast value
    · rw [same, high] at value
      exact_mod_cast value.symm

-- What makes a candidate below the value fit, and one above it.
def belowFits (m : Nat) (e place : Int) (n : Nat) : Bool :=
  decide ((4 * m - gap m) * binaryUnit e place < n * decimalUnit e place) ||
    m % 2 == 0 && (4 * m - gap m) * binaryUnit e place == n * decimalUnit e place

def aboveFits (m : Nat) (e place : Int) (n : Nat) : Bool :=
  decide (n * decimalUnit e place < (4 * m + 2) * binaryUnit e place) ||
    m % 2 == 0 && n * decimalUnit e place == (4 * m + 2) * binaryUnit e place

-- The greatest multiple of the decimal unit that is not above the value.
def floorAt (m : Nat) (e place : Int) : Nat := 4 * m * binaryUnit e place / decimalUnit e place

theorem decimalOf?_eq : ∃ nearer, decimalOf? m e size count =
    if belowFits m e (size - count) (floorAt m e (size - count)) &&
        (!aboveFits m e (size - count) (floorAt m e (size - count) + 1) || nearer) then
      some ⟨floorAt m e (size - count), size - count⟩
    else if aboveFits m e (size - count) (floorAt m e (size - count) + 1) then
      some ⟨floorAt m e (size - count) + 1, size - count⟩
    else none := ⟨_, rfl⟩

theorem belowFits_iff : belowFits m e place n = true ↔
    (4 * m - gap m) * binaryUnit e place ≤ n * decimalUnit e place ∧
      ((4 * m - gap m) * binaryUnit e place = n * decimalUnit e place → m % 2 = 0) := by
  simp only [belowFits, Bool.or_eq_true, Bool.and_eq_true, decide_eq_true_eq, beq_iff_eq]
  omega

theorem aboveFits_iff : aboveFits m e place n = true ↔
    n * decimalUnit e place ≤ (4 * m + 2) * binaryUnit e place ∧
      (n * decimalUnit e place = (4 * m + 2) * binaryUnit e place → m % 2 = 0) := by
  simp only [aboveFits, Bool.or_eq_true, Bool.and_eq_true, decide_eq_true_eq, beq_iff_eq]
  omega

theorem binaryUnit_pos : 0 < binaryUnit e place :=
  Nat.mul_pos (Nat.pow_pos (by omega)) (Nat.pow_pos (by omega))

theorem decimalUnit_pos : 0 < decimalUnit e place :=
  Nat.mul_pos (Nat.pow_pos (by omega)) (Nat.pow_pos (by omega))

theorem floorAt_mul_le : floorAt m e place * decimalUnit e place ≤ 4 * m * binaryUnit e place :=
  Nat.div_mul_le_self _ _

theorem lt_floorAt_mul :
    4 * m * binaryUnit e place < (floorAt m e place + 1) * decimalUnit e place := by
  have rest := Nat.mod_lt (4 * m * binaryUnit e place) (@decimalUnit_pos e place)
  have split := Nat.div_add_mod (4 * m * binaryUnit e place) (decimalUnit e place)
  rw [floorAt, Nat.add_mul, Nat.one_mul, Nat.mul_comm _ (decimalUnit e place)]
  omega

theorem midpoints_apart (positive : 0 < m) :
    (4 * m - gap m) * binaryUnit e place < 4 * m * binaryUnit e place ∧
      4 * m * binaryUnit e place < (4 * m + 2) * binaryUnit e place := by
  have wide : 0 < gap m := by
    unfold gap
    split <;> omega
  have narrow := gap_le positive
  constructor
  · exact Nat.mul_lt_mul_of_pos_right (by omega) binaryUnit_pos
  · exact Nat.mul_lt_mul_of_pos_right (by omega) binaryUnit_pos

theorem below_near (positive : 0 < m) (chosen : belowFits m e place (floorAt m e place) = true) :
    Near m e (floorAt m e place * (10 : ℚ) ^ place) := by
  obtain ⟨fits, even⟩ := belowFits_iff.1 chosen
  obtain ⟨-, right⟩ := @midpoints_apart m e place positive
  have floor := @floorAt_mul_le m e place
  refine near_of_scaled positive fits (by omega) fun reached => ?_
  rcases reached with low | high
  · exact even low
  · omega

theorem above_near (positive : 0 < m)
    (chosen : aboveFits m e place (floorAt m e place + 1) = true) :
    Near m e ((floorAt m e place + 1 : Nat) * (10 : ℚ) ^ place) := by
  obtain ⟨fits, even⟩ := aboveFits_iff.1 chosen
  obtain ⟨left, -⟩ := @midpoints_apart m e place positive
  have above := @lt_floorAt_mul m e place
  refine near_of_scaled positive (by omega) fits fun reached => ?_
  rcases reached with low | high
  · omega
  · exact even high

theorem decimalOf?_near (positive : 0 < m) (found : decimalOf? m e size count = some d) :
    Near m e d.value := by
  obtain ⟨nearer, candidates⟩ := @decimalOf?_eq m count e size
  rw [candidates] at found
  split at found
  · rename_i chosen
    cases found
    exact below_near positive (Bool.and_eq_true_iff.1 chosen).1
  · split at found
    · rename_i chosen
      cases found
      exact above_near positive chosen
    · cases found

-- One of the two candidates fits if they are closer to each other than the midpoints are.
theorem decimalOf?_isSome (positive : 0 < m)
    (fine : decimalUnit e (size - count) < (2 + gap m) * binaryUnit e (size - count)) :
    (decimalOf? m e size count).isSome = true := by
  obtain ⟨nearer, candidates⟩ := @decimalOf?_eq m count e size
  have fits : belowFits m e (size - count) (floorAt m e (size - count)) = true ∨
      aboveFits m e (size - count) (floorAt m e (size - count) + 1) = true := by
    rw [belowFits_iff, aboveFits_iff]
    have narrow := gap_le positive
    have low : (4 * m - gap m) * binaryUnit e (size - count) +
        (2 + gap m) * binaryUnit e (size - count) = (4 * m + 2) * binaryUnit e (size - count) := by
      rw [← Nat.add_mul]
      congr 1
      omega
    have step : (floorAt m e (size - count) + 1) * decimalUnit e (size - count) =
        floorAt m e (size - count) * decimalUnit e (size - count) +
          decimalUnit e (size - count) := by ring
    omega
  rw [candidates]
  rcases fits with below | above
  · rw [below]
    cases aboveFits m e (size - count) (floorAt m e (size - count) + 1) <;> cases nearer <;> rfl
  · rw [above]
    split <;> rfl

theorem pow_length_le {n : Nat} (positive : 0 < n) :
    Nat.pow 10 ((Nat.toDigits 10 n).length - 1) ≤ n := by
  by_cases short : (Nat.toDigits 10 n).length ≤ 1
  · rw [Nat.sub_eq_zero_of_le short]
    exact positive
  · have longer : ¬ (Nat.toDigits 10 n).length ≤ (Nat.toDigits 10 n).length - 1 := by omega
    rw [Nat.length_toDigits_le_iff (by omega) (by omega)] at longer
    exact Nat.le_of_not_lt longer

theorem pow_two_le {room : Nat} (small : n ≤ 3 * room) : Nat.pow 2 n ≤ Nat.pow 10 room := by
  have power : Nat.pow 2 (3 * room) = Nat.pow (Nat.pow 2 3) room := Nat.pow_mul 2 3 room
  calc Nat.pow 2 n ≤ Nat.pow 2 (3 * room) := Nat.pow_le_pow_right (by omega) small
    _ = Nat.pow (Nat.pow 2 3) room := power
    _ ≤ Nat.pow 10 room := Nat.pow_le_pow_left (by decide) room

-- A value in units of `10 ^ -room`, cut off.
def scaledUp (room m : Nat) (e : Int) : Nat :=
  if 0 ≤ e then m * Nat.pow 2 e.toNat * Nat.pow 10 room
  else m * Nat.pow 10 room / Nat.pow 2 (-e).toNat

theorem scaledUp_pos {room : Nat} (positive : 0 < m) (small : (-e).toNat ≤ 3 * room) :
    0 < scaledUp room m e := by
  have large : 0 < Nat.pow 10 room := Nat.pow_pos (by omega)
  unfold scaledUp
  split
  · exact Nat.mul_pos (Nat.mul_pos positive (Nat.pow_pos (by omega))) large
  · refine Nat.div_pos ?_ (Nat.pow_pos (by omega))
    exact (pow_two_le small).trans (Nat.le_mul_of_pos_left _ positive)

theorem scaledUp_le (room m : Nat) (e : Int) :
    (scaledUp room m e : ℚ) ≤ m * (2 : ℚ) ^ e * (10 : ℚ) ^ room := by
  unfold scaledUp
  split
  · rename_i nonneg
    have power : (2 : ℚ) ^ e = (2 : ℚ) ^ e.toNat := by
      rw [← zpow_natCast, Int.toNat_of_nonneg nonneg]
    rw [power]
    simp
  · rename_i negative
    have power : (2 : ℚ) ^ e = ((2 : ℚ) ^ (-e).toNat)⁻¹ := by
      rw [← zpow_natCast, ← zpow_neg, Int.toNat_of_nonneg (by omega), neg_neg]
    have whole : ((m * Nat.pow 10 room / Nat.pow 2 (-e).toNat : Nat) : ℚ) ≤
        (m * Nat.pow 10 room : Nat) / (Nat.pow 2 (-e).toNat : Nat) := Nat.cast_div_le
    have same : ((m * Nat.pow 10 room : Nat) / (Nat.pow 2 (-e).toNat : Nat) : ℚ) =
        m * (2 : ℚ) ^ e * (10 : ℚ) ^ room := by
      rw [power, div_eq_mul_inv]
      simp only [Nat.pow_eq]
      push_cast
      ring
    exact same ▸ whole

theorem pow_decimalSize_le (positive : 0 < m) (least : leastExponent ≤ e) :
    (10 : ℚ) ^ (decimalSize m e - 1) ≤ m * (2 : ℚ) ^ e := by
  have bound : leastExponent = -1074 := rfl
  obtain ⟨room, filled, counted⟩ : ∃ room : Nat, 0 < scaledUp room m e ∧
      decimalSize m e = (Nat.toDigits 10 (scaledUp room m e)).length - room :=
    ⟨400, scaledUp_pos positive (by omega), rfl⟩
  have digits : 0 < (Nat.toDigits 10 (scaledUp room m e)).length := Nat.length_toDigits_pos
  have leading : (10 : ℚ) ^ ((Nat.toDigits 10 (scaledUp room m e)).length - 1) ≤
      m * (2 : ℚ) ^ e * (10 : ℚ) ^ room := by
    refine le_trans ?_ (scaledUp_le room m e)
    exact_mod_cast pow_length_le filled
  have exponent : (10 : ℚ) ^ ((Nat.toDigits 10 (scaledUp room m e)).length - 1) =
      (10 : ℚ) ^ (decimalSize m e - 1) * (10 : ℚ) ^ room := by
    rw [← zpow_natCast, ← zpow_natCast, ← zpow_add₀ (by norm_num), counted]
    congr 1
    omega
  rw [exponent] at leading
  exact le_of_mul_le_mul_right leading (by positivity)

theorem four_mul_lt (stored : Stored m e) : 4 * m < (2 + gap m) * 10000000000000000 := by
  have short := stored.short
  have bits : leadingBit = 4503599627370496 := rfl
  unfold gap
  split <;> omega

-- Seventeen digits are enough: their last place is finer than the gap between the midpoints.
theorem seventeen_digits (positive : 0 < m) (stored : Stored m e) :
    (decimalOf? m e (decimalSize m e) 17).isSome = true := by
  apply decimalOf?_isSome positive
  obtain ⟨scale, scaled, binary, decimal⟩ := units_scaled e (decimalSize m e - (17 : Nat))
  have place : (10 : ℚ) ^ (decimalSize m e - (17 : Nat)) * 10000000000000000 ≤
      4 * m * quarter e := by
    have last : (10 : ℚ) ^ (decimalSize m e - (17 : Nat)) * 10000000000000000 =
        (10 : ℚ) ^ (decimalSize m e - 1) := by
      have ten : (10000000000000000 : ℚ) = (10 : ℚ) ^ (16 : Int) := by norm_num
      rw [ten, ← zpow_add₀ (by norm_num)]
      congr 1
      push_cast
      ring
    have whole : (2 : ℚ) ^ e = 4 * quarter e := by
      have four : (4 : ℚ) = (2 : ℚ) ^ (2 : Int) := by norm_num
      rw [quarter, four, ← zpow_add₀ (by norm_num)]
      congr 1
      ring
    have size := pow_decimalSize_le positive stored.least
    rw [last]
    rw [whole] at size
    linarith
  have narrow : (4 * m : ℚ) < (2 + gap m) * 10000000000000000 := by
    exact_mod_cast four_mul_lt stored
  have fine : (10 : ℚ) ^ (decimalSize m e - (17 : Nat)) < (2 + gap m) * quarter e := by
    have scaledBound := mul_lt_mul_of_pos_right narrow (quarter_pos e)
    linarith
  have units : (decimalUnit e (decimalSize m e - (17 : Nat)) : ℚ) <
      (2 + gap m) * binaryUnit e (decimalSize m e - (17 : Nat)) := by
    rw [binary, decimal]
    have bound := mul_lt_mul_of_pos_left fine scaled
    linarith
  exact_mod_cast units

theorem shortest_near (positive : 0 < m) (stored : Stored m e) : Near m e (shortest m e).value := by
  obtain ⟨last, enough⟩ := Option.isSome_iff_exists.1 (seventeen_digits positive stored)
  have found : ((List.range 17).findSome? fun n =>
      decimalOf? m e (decimalSize m e) (n + 1)).isSome = true := by
    rw [List.findSome?_isSome_iff]
    exact ⟨16, List.mem_range.2 (by omega), by rw [enough]; rfl⟩
  obtain ⟨d, found⟩ := Option.isSome_iff_exists.1 found
  have chosen : shortest m e = d.trimZeros 20 := by
    rw [shortest, found]
    rfl
  obtain ⟨k, -, candidate⟩ := List.exists_of_findSome?_eq_some found
  rw [chosen, Decimal.value_trimZeros]
  exact decimalOf?_near positive candidate

end Scriptlet.Point
