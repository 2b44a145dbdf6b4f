import Scriptlet.Proofs.Point.Finite

/-!
Quotients rounded once to a mantissa of 53 bits. Each operation on point values that is exact but
for its last step gives such a quotient, and two of them are the same number as soon as the
quotients are.
-/

namespace Scriptlet.Point

open Float.Model
open Float.Model.UnpackedFloat

variable {sign : Sign} {m n d c k j : Nat} {e e' : Int}

theorem pow_sum (k j : Nat) : Nat.pow 2 (k + j) = Nat.pow 2 k * Nat.pow 2 j := Nat.pow_add ..

theorem pow_positive (k : Nat) : 0 < Nat.pow 2 k := Nat.two_pow_pos k

theorem log2_eq (low : Nat.pow 2 k ≤ m) (high : m < Nat.pow 2 (k + 1)) : m.log2 = k := by
  have positive := pow_positive k
  exact (Nat.log2_eq_iff (by omega)).2 ⟨low, high⟩

theorem le_pow_log2 (positive : 0 < m) : Nat.pow 2 m.log2 ≤ m :=
  Nat.log2_self_le (Nat.pos_iff_ne_zero.1 positive)

theorem lt_pow_log2 (m : Nat) : m < Nat.pow 2 (m.log2 + 1) := Nat.lt_log2_self

theorem le_log2_of_pow (low : Nat.pow 2 k ≤ m) : k ≤ m.log2 :=
  (Nat.le_log2 (Nat.pos_iff_ne_zero.1 (Nat.lt_of_lt_of_le (pow_positive k) low))).2 low

theorem log2_mul_pow (positive : 0 < m) (k : Nat) : (m * Nat.pow 2 k).log2 = m.log2 + k := by
  apply log2_eq
  · rw [pow_sum]
    exact Nat.mul_le_mul_right _ (le_pow_log2 positive)
  · rw [Nat.add_right_comm, pow_sum]
    exact Nat.mul_lt_mul_of_pos_right (lt_pow_log2 m) (pow_positive k)

theorem log2_div_pow (long : k ≤ m.log2) (positive : 0 < m) :
    (m / Nat.pow 2 k).log2 = m.log2 - k := by
  have low := le_pow_log2 positive
  have high := lt_pow_log2 m
  have same : m.log2 - k + k = m.log2 := Nat.sub_add_cancel long
  apply log2_eq
  · rw [Nat.le_div_iff_mul_le (pow_positive k), ← pow_sum, same]
    exact low
  · rw [Nat.div_lt_iff_lt_mul (pow_positive k), ← pow_sum, Nat.add_right_comm, same]
    exact high

theorem log2_div (divisor : 0 < d) (longer : d.log2 < n.log2) :
    n.log2 - d.log2 - 1 ≤ (n / d).log2 ∧ (n / d).log2 ≤ n.log2 - d.log2 := by
  have positive : 0 < n := by
    cases n with
    | zero => cases longer
    | succ n => exact Nat.succ_pos n
  constructor
  · have split : n.log2 = n.log2 - d.log2 - 1 + (d.log2 + 1) := by omega
    have low := le_pow_log2 positive
    rw [split, pow_sum] at low
    apply le_log2_of_pow
    rw [Nat.le_div_iff_mul_le divisor]
    exact Nat.le_trans (Nat.mul_le_mul_left _ (Nat.le_of_lt (lt_pow_log2 d))) low
  · have split : n.log2 + 1 = n.log2 - d.log2 + 1 + d.log2 := by omega
    have high := lt_pow_log2 n
    rw [split, pow_sum] at high
    apply log2_le_of_lt
    rw [Nat.div_lt_iff_lt_mul divisor]
    exact Nat.lt_of_lt_of_le high (Nat.mul_le_mul_left _ (le_pow_log2 divisor))

-- A quotient with all that rounding needs to know of what was cut off.
def quotient (n d : Nat) : ExtendedMantissa :=
  ExtendedMantissa.ofMantissaAndAccuracy (n / d) (accuracyOfFraction (n % d) d)

theorem quotient_eq (positive : 0 < d) : quotient n d =
    ⟨n / d, decide (d ≤ 2 * (n % d)), decide (n % d ≠ 0 ∧ 2 * (n % d) ≠ d)⟩ := by
  unfold quotient accuracyOfFraction
  by_cases exact : n % d = 0
  · rw [if_pos exact, exact]
    simp [ExtendedMantissa.ofMantissaAndAccuracy, Nat.pos_iff_ne_zero.1 positive]
  · rw [if_neg exact]
    cases order : compare (2 * (n % d)) d with
    | lt =>
      have below := Nat.compare_eq_lt.1 order
      simp [ExtendedMantissa.ofMantissaAndAccuracy, exact, below]
      omega
    | eq =>
      have same := Nat.compare_eq_eq.1 order
      simp [ExtendedMantissa.ofMantissaAndAccuracy, same]
    | gt =>
      have above := Nat.compare_eq_gt.1 order
      simp [ExtendedMantissa.ofMantissaAndAccuracy, exact]
      omega

theorem quotient_mantissa (n d : Nat) : (quotient n d).mantissa = n / d :=
  ofMantissaAndAccuracy_mantissa _

theorem quotient_one (n : Nat) : quotient n 1 = ⟨n, false, false⟩ := by
  unfold quotient
  rw [Nat.mod_one, Nat.div_one]
  rfl

theorem quotient_scaled (divisor : 0 < d) (positive : 0 < c) :
    quotient (n * c) (d * c) = quotient n d := by
  have zero : n % d * c = 0 ↔ n % d = 0 := by
    rw [Nat.mul_eq_zero]
    omega
  have below : d * c ≤ 2 * (n % d * c) ↔ d ≤ 2 * (n % d) := by
    rw [← Nat.mul_assoc]
    exact Nat.mul_le_mul_right_iff positive
  have half : 2 * (n % d * c) = d * c ↔ 2 * (n % d) = d := by
    rw [← Nat.mul_assoc]
    exact Nat.mul_left_inj (Nat.pos_iff_ne_zero.1 positive)
  rw [quotient_eq (Nat.mul_pos divisor positive), quotient_eq divisor,
    Nat.mul_div_mul_right _ _ positive, Nat.mul_mod_mul_right]
  simp only [below, half, zero, Ne]

theorem quotient_shiftRightOne (divisor : 0 < d) :
    (quotient n d).shiftRightOne = quotient n (d * 2) := by
  have rest : n % (d * 2) = n % d + d * (n / d % 2) := Nat.mod_mul
  have small := Nat.mod_lt n divisor
  have bit := Nat.mod_two_eq_zero_or_one (n / d)
  have round : (n / d % 2 != 0) = decide (d * 2 ≤ 2 * (n % (d * 2))) := by
    rw [Bool.eq_iff_iff, bne_iff_ne, decide_eq_true_eq, rest]
    rcases bit with even | odd
    · rw [even]
      omega
    · rw [odd]
      omega
  have sticky : (decide (d ≤ 2 * (n % d)) || decide (n % d ≠ 0 ∧ 2 * (n % d) ≠ d)) =
      decide (n % (d * 2) ≠ 0 ∧ 2 * (n % (d * 2)) ≠ d * 2) := by
    rw [Bool.eq_iff_iff, Bool.or_eq_true, decide_eq_true_eq, decide_eq_true_eq, decide_eq_true_eq,
      rest]
    rcases bit with even | odd
    · rw [even]
      omega
    · rw [odd]
      omega
  rw [quotient_eq divisor, quotient_eq (Nat.mul_pos divisor (by omega)),
    ← Nat.div_div_eq_div_mul, ← round, ← sticky]
  rfl

theorem quotient_shiftRight (divisor : 0 < d) (k : Nat) :
    quotient n d >>> k = quotient n (d * Nat.pow 2 k) := by
  induction k with
  | zero =>
    rw [show Nat.pow 2 0 = 1 from rfl, Nat.mul_one]
    rfl
  | succ k ih =>
    have once : quotient n d >>> (k + 1) = (quotient n d >>> k).shiftRightOne := rfl
    rw [once, ih, quotient_shiftRightOne (Nat.mul_pos divisor (pow_positive k)), Nat.mul_assoc]
    rfl

theorem shiftRight_succ (em : ExtendedMantissa) (k : Nat) :
    em >>> (k + 1) = em.shiftRightOne >>> k := by
  induction k with
  | zero => rfl
  | succ k ih =>
    have once : em >>> (k + 1 + 1) = (em >>> (k + 1)).shiftRightOne := rfl
    rw [once, ih]
    rfl

-- The last bit of a quotient may stand for all that was cut off, if two bits or more go after it.
theorem quotient_marked (divisor : 0 < d) (k : Nat) :
    quotient (n / d ||| if n % d = 0 then 0 else 1) (Nat.pow 2 (k + 2)) =
      quotient n (d * Nat.pow 2 (k + 2)) := by
  have whole : Nat.pow 2 (k + 2) = 1 * Nat.pow 2 (k + 2) := (Nat.one_mul _).symm
  rw [whole, ← quotient_shiftRight Nat.one_pos, Nat.one_mul, ← quotient_shiftRight divisor,
    quotient_one, shiftRight_succ, shiftRight_succ, shiftRight_succ, shiftRight_succ,
    quotient_eq divisor]
  congr 1
  have small := Nat.mod_lt n divisor
  have half : (n / d ||| 1) / 2 = n / d / 2 := by rw [Nat.or_div_two]; simp
  have last : (n / d ||| 1) % 2 = 1 := by simp
  by_cases exact : n % d = 0
  · rw [if_pos exact, Nat.or_zero, exact]
    simp [ExtendedMantissa.shiftRightOne, Nat.pos_iff_ne_zero.1 divisor]
  · rw [if_neg exact]
    simp [ExtendedMantissa.shiftRightOne, half, last]
    omega

theorem le_roundedMantissa (em : ExtendedMantissa) : em.mantissa ≤ em.roundedMantissa := by
  obtain ⟨mantissa, round, sticky⟩ := em
  cases round <;> cases sticky <;>
    simp only [ExtendedMantissa.roundedMantissa, ExtendedMantissa.accuracy,
      Accuracy.roundToNearestEven] <;> omega

-- Bits of the whole part that a mantissa has no room for.
def excess (n d : Nat) : Nat := (n / d).log2 - 52

def stored (sign : Sign) (m : Nat) (e : Int) : UnpackedFloat :=
  if zero : m = 0 then .zero sign else .finite sign m e (Nat.pos_of_ne_zero zero)

-- Rounding up may give a mantissa one bit too long.
def carry (sign : Sign) (m : Nat) (e : Int) : UnpackedFloat :=
  if m < Nat.pow 2 53 then stored sign m e else stored sign (Nat.pow 2 52) (e + 1)

-- The point value nearest to `n / d * 2 ^ e`, where the whole part fills a mantissa.
def rounded (sign : Sign) (n d : Nat) (e : Int) : UnpackedFloat :=
  carry sign (quotient n (d * Nat.pow 2 (excess n d))).roundedMantissa (e + excess n d)

theorem stored_pos (positive : 0 < m) : stored sign m e = .finite sign m e positive :=
  dif_neg (Nat.pos_iff_ne_zero.1 positive)

theorem pos_of_long (long : 52 ≤ m.log2) : 0 < m := by
  cases m with
  | zero => cases long
  | succ m => exact Nat.succ_pos m

theorem pos_of_full (full : m.log2 = 52) : 0 < m := pos_of_long (Nat.le_of_eq full.symm)

theorem long_of_full (full : m.log2 = 52) : 52 ≤ (m / 1).log2 :=
  Nat.le_of_eq (by rw [Nat.div_one, full])

theorem pos_divisor (long : 52 ≤ (n / d).log2) : 0 < d := by
  cases d with
  | zero =>
    rw [Nat.div_zero] at long
    cases long
  | succ d => exact Nat.succ_pos d

theorem mantissa_bounds (long : 52 ≤ (n / d).log2) :
    Nat.pow 2 52 ≤ (quotient n (d * Nat.pow 2 (excess n d))).roundedMantissa ∧
      (quotient n (d * Nat.pow 2 (excess n d))).roundedMantissa ≤ Nat.pow 2 53 := by
  have positive := pos_of_long long
  have fits : (n / d / Nat.pow 2 (excess n d)).log2 = 52 := by
    unfold excess
    rw [log2_div_pow (Nat.sub_le _ _) positive]
    omega
  have low := le_pow_log2 (pos_of_full fits)
  have high := lt_pow_log2 (n / d / Nat.pow 2 (excess n d))
  have least := le_roundedMantissa (quotient n (d * Nat.pow 2 (excess n d)))
  have most := roundedMantissa_le (quotient n (d * Nat.pow 2 (excess n d)))
  rw [fits] at low high
  rw [quotient_mantissa, ← Nat.div_div_eq_div_mul] at least most
  exact ⟨Nat.le_trans low least, Nat.le_trans most high⟩

theorem rounded_normal (sign : Sign) (e : Int) (long : 52 ≤ (n / d).log2) :
    ∃ m t, rounded sign n d e = stored sign m t ∧ m.log2 = 52 ∧ e + excess n d ≤ t ∧
      t ≤ e + excess n d + 1 := by
  obtain ⟨low, high⟩ := mantissa_bounds long
  unfold rounded carry
  split
  · exact ⟨_, _, rfl, log2_eq low ‹_›, Int.le_refl _, by omega⟩
  · exact ⟨_, _, rfl, rfl, by omega, Int.le_refl _⟩

theorem rounded_scaled (long : 52 ≤ (n / d).log2) (positive : 0 < c) :
    rounded sign (n * c) (d * c) e = rounded sign n d e := by
  have same : excess (n * c) (d * c) = excess n d := by
    unfold excess
    rw [Nat.mul_div_mul_right _ _ positive]
  unfold rounded
  rw [same, Nat.mul_right_comm,
    quotient_scaled (Nat.mul_pos (pos_divisor long) (pow_positive _)) positive]

-- A whole part filled up with zeros is still the same number.
theorem rounded_filled (long : 52 ≤ (n / d).log2) (j : Nat) :
    rounded sign (n * Nat.pow 2 j) d e = rounded sign n d (e + j) := by
  have divisor := pos_divisor long
  have grown : (n * Nat.pow 2 j / d).log2 = (n / d).log2 + j := by
    have low := le_pow_log2 (pos_of_long long)
    have high := lt_pow_log2 (n / d)
    rw [Nat.le_div_iff_mul_le divisor] at low
    rw [Nat.div_lt_iff_lt_mul divisor] at high
    apply log2_eq
    · rw [Nat.le_div_iff_mul_le divisor, pow_sum, Nat.mul_right_comm]
      exact Nat.mul_le_mul_right _ low
    · rw [Nat.div_lt_iff_lt_mul divisor, Nat.add_right_comm, pow_sum, Nat.mul_right_comm]
      exact Nat.mul_lt_mul_of_pos_right high (pow_positive j)
  have more : excess (n * Nat.pow 2 j) d = excess n d + j := by
    unfold excess
    rw [grown]
    omega
  have exponent : e + ((excess n d + j : Nat) : Int) = e + j + excess n d := by omega
  unfold rounded
  rw [more, pow_sum, ← Nat.mul_assoc, exponent,
    quotient_scaled (Nat.mul_pos divisor (pow_positive _)) (pow_positive j)]

theorem log2_marked (positive : 0 < n / d) :
    (n / d ||| if n % d = 0 then 0 else 1).log2 = (n / d).log2 := by
  split
  · rw [Nat.or_zero]
  · apply log2_eq (Nat.le_trans (le_pow_log2 positive) Nat.left_le_or)
    exact Nat.or_lt_two_pow (lt_pow_log2 (n / d))
      (Nat.one_lt_two_pow (Nat.succ_ne_zero (n / d).log2))

theorem rounded_marked (long : 54 ≤ (n / d).log2) :
    rounded sign (n / d ||| if n % d = 0 then 0 else 1) 1 e = rounded sign n d e := by
  have enough : 52 ≤ (n / d).log2 := Nat.le_trans (by omega) long
  have divisor := pos_divisor enough
  have room : excess n d = excess n d - 2 + 2 := by
    unfold excess
    omega
  have same : excess (n / d ||| if n % d = 0 then 0 else 1) 1 = excess n d := by
    unfold excess
    rw [Nat.div_one, log2_marked (pos_of_long enough)]
  unfold rounded
  rw [same, Nat.one_mul, room, quotient_marked divisor]

theorem rounded_exact (fits : m.log2 = 52) : rounded sign m 1 e = stored sign m e := by
  have none : excess m 1 = 0 := by
    unfold excess
    rw [Nat.div_one, fits]
  have whole : 1 * Nat.pow 2 0 = 1 := rfl
  have alone : (⟨m, false, false⟩ : ExtendedMantissa).roundedMantissa = m := rfl
  have below := lt_pow_log2 m
  rw [fits] at below
  unfold rounded carry
  rw [none, whole, quotient_one, alone, if_pos below, Int.natCast_zero, Int.add_zero]

theorem shiftToTargetExponent_eq {accuracy : Accuracy} (long : m.log2 = 52 + k)
    (low : -1074 ≤ e + k) : shiftToTargetExponent Format.binary64 m e accuracy =
      (ExtendedMantissa.ofMantissaAndAccuracy m accuracy >>> k, e + k) := by
  have shift : (Format.binary64.targetExponent (totalExponent m e) - e).toNat = k := by
    simp only [Format.targetExponent, totalExponent, places, least]
    omega
  unfold shiftToTargetExponent shiftToExponent
  dsimp only
  rw [shift]

theorem roundWithAccuracy_stored {em : ExtendedMantissa} {accuracy : Accuracy}
    (first : shiftToTargetExponent Format.binary64 m e accuracy = (em, e')) :
    roundWithAccuracy Format.binary64 sign m e accuracy = stored sign
      (shiftToTargetExponent Format.binary64 em.roundedMantissa e' .exact).1.mantissa
      (shiftToTargetExponent Format.binary64 em.roundedMantissa e' .exact).2 := by
  unfold roundWithAccuracy
  rw [first]
  rfl

theorem roundWithAccuracy_eq (long : 52 ≤ (n / d).log2) (low : -1074 ≤ e + excess n d) :
    roundWithAccuracy Format.binary64 sign (n / d) e (accuracyOfFraction (n % d) d) =
      rounded sign n d e := by
  obtain ⟨least, most⟩ := mantissa_bounds long
  have first : (n / d).log2 = 52 + excess n d := by
    unfold excess
    omega
  rw [roundWithAccuracy_stored (shiftToTargetExponent_eq first low), ← quotient,
    quotient_shiftRight (pos_divisor long)]
  unfold rounded carry
  generalize (quotient n (d * Nat.pow 2 (excess n d))).roundedMantissa = r at *
  by_cases short : r < Nat.pow 2 53
  · rw [if_pos short, shiftToTargetExponent_eq (k := 0) (log2_eq least short) (by omega),
      Int.natCast_zero, Int.add_zero]
    rfl
  · have full : r = Nat.pow 2 53 := by omega
    rw [if_neg short, full, shiftToTargetExponent_eq (k := 1) rfl (by omega)]
    rfl

theorem roundWithAccuracy_exact (long : 52 ≤ m.log2) (low : -1074 ≤ e + excess m 1) :
    roundWithAccuracy Format.binary64 sign m e .exact = rounded sign m 1 e := by
  rw [← Nat.div_one m] at long
  have whole := @roundWithAccuracy_eq sign m 1 e long low
  rw [Nat.div_one, Nat.mod_one] at whole
  exact whole

theorem unpackSign_packComponents {spec : Format} {exponent : BitVec spec.exponentBits}
    {mantissa : BitVec spec.mantissaBitsWithoutImplicit} :
    unpackSign (packComponents spec sign exponent mantissa) = sign.toBitVec := by
  ext i first
  have zero : i = 0 := by omega
  subst zero
  delta unpackSign
  simp [packComponents, BitVec.getLsbD_append, BitVec.getElem_append]

theorem ofBitVec_toBitVec : Sign.ofBitVec sign.toBitVec = sign := by
  cases sign <;> rfl

theorem finite_eq {sign' : Sign} {m' : Nat} {e' : Int} {positive : 0 < m} {positive' : 0 < m'}
    (signs : sign = sign') (mantissas : m = m') (exponents : e = e') :
    UnpackedFloat.finite sign m e positive = .finite sign' m' e' positive' := by
  subst signs mantissas exponents
  rfl

theorem pack_finite {positive : 0 < m} :
    UnpackedFloat.pack Format.binary64 (.finite sign m e positive) =
      if Nat.pow 2 11 ≤ (e + Format.binary64.exponentBias + (52 : Nat)).toNat + 1 then
        packedInfinity Format.binary64 sign
      else if m.log2 + 1 = Format.binary64.mantissaBits then
        packComponents Format.binary64 sign
          (BitVec.ofNat 11 (e + Format.binary64.exponentBias + (52 : Nat)).toNat)
          (BitVec.ofNat 52 m)
      else packComponents Format.binary64 sign 0#11 (BitVec.ofNat 52 m) := rfl

theorem pack_stored (fits : m.log2 = 52) (low : -1074 ≤ e) (high : e ≤ 971) :
    UnpackedFloat.pack Format.binary64 (stored sign m e) =
      packComponents Format.binary64 sign (BitVec.ofNat 11 (e + 1075).toNat)
        (BitVec.ofNat 52 m) := by
  have biased : (e + Format.binary64.exponentBias + (52 : Nat)).toNat = (e + 1075).toNat := by
    rw [bias]
    omega
  have most : Nat.pow 2 11 = 2048 := rfl
  rw [stored_pos (pos_of_full fits), pack_finite, biased, if_neg (by omega),
    if_pos (by rw [fits]; rfl)]

-- Packing drops the leading bit, and unpacking sets it again.
theorem unpack_pack_stored (fits : m.log2 = 52) (low : -1074 ≤ e) (high : e ≤ 971) :
    (Float.Model.pack (stored sign m e)).unpack = stored sign m e := by
  have positive := pos_of_full fits
  have least := le_pow_log2 positive
  have most := lt_pow_log2 m
  have exponent : (BitVec.ofNat 11 (e + 1075).toNat).toNat = (e + 1075).toNat := by
    rw [BitVec.toNat_ofNat, Nat.mod_eq_of_lt (by omega)]
  have mantissa : (1#1 ++ BitVec.ofNat 52 m).toNat = m := by
    rw [fits] at least most
    rw [BitVec.toNat_append, ← Nat.shiftLeft_add_eq_or_of_lt (BitVec.ofNat 52 m).isLt,
      BitVec.toNat_ofNat]
    simp only [BitVec.toNat_ofNat, Nat.shiftLeft_eq, Nat.pow_eq, Nat.reducePow, Nat.reduceAdd,
      Nat.reduceMod] at least most ⊢
    omega
  have other : BitVec.ofNat 11 (e + 1075).toNat ≠ -1#11 := by
    intro same
    have last : (-1#11).toNat = 2047 := rfl
    rw [same, last] at exponent
    omega
  have other' : BitVec.ofNat 11 (e + 1075).toNat ≠ 0#11 := by
    intro same
    have first : (0#11).toNat = 0 := rfl
    rw [same, first] at exponent
    omega
  have shifted : ((e + 1075).toNat : Int) - (1023 + (52 : Nat)) = e := by omega
  have unfolded : (Float.Model.pack (stored sign m e)).unpack = UnpackedFloat.unpack
      Format.binary64 (UnpackedFloat.pack Format.binary64 (stored sign m e)) := rfl
  rw [unfolded, pack_stored fits low high]
  unfold UnpackedFloat.unpack
  dsimp only
  rw [unpackExponent_packComponents, if_neg other, if_neg other', stored_pos positive]
  refine finite_eq ?_ ?_ ?_
  · rw [unpackSign_packComponents, ofBitVec_toBitVec]
  · rw [unpackMantissa_packComponents, mantissa]
  · rw [exponent, bias, shifted]

-- Neither too small nor too great for a mantissa of its own.
structure Fits (n d : Nat) (e : Int) : Prop where
  long : 52 ≤ (n / d).log2
  low : -1074 ≤ e + excess n d
  high : e + excess n d < 971

def ofUnpacked (u : UnpackedFloat) : Float := .ofModel (Float.Model.pack u)

theorem unpack_rounded (fits : Fits n d e) :
    (ofUnpacked (rounded sign n d e)).toModel.unpack = rounded sign n d e := by
  obtain ⟨m, t, found, short, least, most⟩ := rounded_normal sign e fits.long
  have low := fits.low
  have high := fits.high
  rw [found]
  exact unpack_pack_stored short (by omega) (by omega)

theorem neg_stored : (stored sign m e).neg = stored (-sign) m e := by
  cases m with
  | zero => rfl
  | succ m => rfl

theorem neg_rounded (sign : Sign) (fits : Fits n d e) :
    -ofUnpacked (rounded sign n d e) = ofUnpacked (rounded (-sign) n d e) := by
  have negated : (rounded sign n d e).neg = rounded (-sign) n d e := by
    unfold rounded carry
    split <;> exact neg_stored
  have unfolded : -ofUnpacked (rounded sign n d e) =
      ofUnpacked (ofUnpacked (rounded sign n d e)).toModel.unpack.neg := rfl
  rw [unfolded, unpack_rounded fits, negated]

theorem mul_stored (fits : m.log2 = 52) (low : -1074 ≤ e + e' + 52) :
    UnpackedFloat.mul Format.binary64 (stored sign m e) (stored .positive (Nat.pow 2 52) e') =
      stored sign m (e + e' + 52) := by
  have positive := pos_of_full fits
  have same : sign * .positive = sign := by cases sign <;> rfl
  have size : (m * Nat.pow 2 52).log2 = 104 := by rw [log2_mul_pow positive, fits]
  have places : excess (m * Nat.pow 2 52) 1 = 52 := by
    unfold excess
    rw [Nat.div_one, size]
  unfold UnpackedFloat.mul
  rw [stored_pos positive, stored_pos (pow_positive 52)]
  dsimp only
  rw [same, roundWithAccuracy_exact (by omega) (by omega), rounded_filled (long_of_full fits),
    rounded_exact fits]
  rfl

-- A factor that is a power of two goes into the exponent.
theorem mul_rounded {y : Float} (sign : Sign) (fits : Fits n d e) (fits' : Fits n d (e + e' + 52))
    (power : y.toModel.unpack = stored .positive (Nat.pow 2 52) e') :
    ofUnpacked (rounded sign n d e) * y = ofUnpacked (rounded sign n d (e + e' + 52)) := by
  have low := fits'.low
  have unfolded : ofUnpacked (rounded sign n d e) * y = ofUnpacked (UnpackedFloat.mul
      Format.binary64 (ofUnpacked (rounded sign n d e)).toModel.unpack y.toModel.unpack) := rfl
  have product : UnpackedFloat.mul Format.binary64 (rounded sign n d e)
      (stored .positive (Nat.pow 2 52) e') = rounded sign n d (e + e' + 52) := by
    have least := (mantissa_bounds fits.long).1
    have moved : ∀ t, e + t + e' + 52 = e + e' + 52 + t := by omega
    unfold rounded carry
    split
    · rw [mul_stored (log2_eq least ‹_›) (by omega), moved]
    · rw [mul_stored rfl (by omega), Int.add_assoc e, moved, Int.add_assoc (e + e' + 52)]
  rw [unfolded, unpack_rounded fits, power, product]

theorem div_stored (fits : m.log2 = 52) (fits' : n.log2 = 52) {sign' : Sign}
    (low : -1021 ≤ e - e') :
    UnpackedFloat.div Format.binary64 (stored sign m e) (stored sign' n e') =
      rounded (sign / sign') (m * Nat.pow 2 53) n (e - e' - 53) := by
  have positive := pos_of_full fits
  have positive' := pos_of_full fits'
  have target : min (e - e') (Format.binary64.targetExponent (totalExponent m e -
      totalExponent n e')) = e - e' - 53 := by
    simp only [Format.targetExponent, totalExponent, places, least, fits, fits']
    omega
  have shift : (e - e' - (e - e' - 53)).toNat = 53 := by omega
  have size : (m * Nat.pow 2 53).log2 = 105 := by rw [log2_mul_pow positive, fits]
  have long := (log2_div (n := m * Nat.pow 2 53) positive' (by omega)).1
  rw [size, fits'] at long
  unfold UnpackedFloat.div divCore
  rw [stored_pos positive, stored_pos positive']
  dsimp only
  rw [target, shift, Nat.shiftLeft_eq]
  exact roundWithAccuracy_eq long (by omega)

theorem long_filled (positive : 0 < m) (k : Nat) : 52 ≤ (m * Nat.pow 2 (52 + k) / 1).log2 := by
  rw [Nat.div_one, log2_mul_pow positive]
  omega

theorem excess_filled (positive : 0 < m) : excess (m * Nat.pow 2 52) 1 = m.log2 := by
  unfold excess
  rw [Nat.div_one, log2_mul_pow positive, Nat.add_sub_cancel]

theorem fits_filled (positive : 0 < m) (word : m.log2 ≤ 63) : Fits (m * Nat.pow 2 52) 1 (-52) := by
  have places := excess_filled positive
  exact ⟨long_filled positive 0, by omega, by omega⟩

theorem toFloat_eq (positive : 0 < m) (short : m < Nat.pow 2 53) : m.toUInt64.toFloat =
    ofUnpacked (rounded .positive (m * Nat.pow 2 52) 1 (-52)) := by
  have unfolded : m.toUInt64.toFloat =
      ofUnpacked (UnpackedFloat.normalize Format.binary64 m.toUInt64.toNat 0 .positive) := rfl
  have value : m.toUInt64.toNat = m :=
    UInt64.toNat_ofNat_of_lt' (Nat.lt_trans short (by decide))
  have greater : compare (m : Int) 0 = .gt := Int.compare_eq_gt.2 (by omega)
  have few : m.log2 ≤ 52 := log2_le_of_lt short
  have target : (0 - Format.binary64.targetExponent (totalExponent m 0)).toNat = 52 - m.log2 := by
    simp only [Format.targetExponent, totalExponent, places, least]
    omega
  have size : (m * Nat.pow 2 (52 - m.log2)).log2 = 52 := by
    rw [log2_mul_pow positive]
    omega
  have split : m * Nat.pow 2 52 = m * Nat.pow 2 (52 - m.log2) * Nat.pow 2 m.log2 := by
    rw [Nat.mul_assoc, ← pow_sum, Nat.sub_add_cancel few]
  have exponent : (-52 : Int) + m.log2 = 0 - ((52 - m.log2 : Nat) : Int) := by omega
  rw [unfolded, value, split, rounded_filled (long_of_full size), exponent]
  unfold UnpackedFloat.normalize UnpackedFloat.round decreaseExponent
  rw [greater]
  dsimp only
  rw [Int.toNat_natCast, target, Nat.shiftLeft_eq, ← Nat.pow_eq,
    roundWithAccuracy_exact (Nat.le_of_eq size.symm) (by omega)]

theorem ofNat_eq (positive : 0 < m) (word : m.log2 ≤ 63) :
    Float.ofNat m = ofUnpacked (rounded .positive (m * Nat.pow 2 52) 1 (-52)) := by
  by_cases short : m < Nat.pow 2 53
  · have fast : Float.ofNat m =
        m.toUInt64.toFloat * Float.ofBits 0x3FF0000000000000 := dif_pos ⟨short, Nat.zero_le _⟩
    have one : (Float.ofBits 0x3FF0000000000000).toModel.unpack =
        stored .positive (Nat.pow 2 52) (-52) := rfl
    have fits := fits_filled positive word
    rw [fast, toFloat_eq positive short]
    exact mul_rounded .positive fits fits one
  · have slow : Float.ofNat m = ofUnpacked (UnpackedFloat.ofScientific Format.binary64 m 0) :=
      dif_neg fun both => short both.1
    have whole : m <<< 53 * 1 = m * Nat.pow 2 52 * Nat.pow 2 1 := by
      rw [Nat.mul_one, Nat.shiftLeft_eq, Nat.mul_assoc, ← pow_sum]
    have size : 52 ≤ (m * Nat.pow 2 52 * Nat.pow 2 1).log2 := by
      rw [Nat.mul_assoc, ← pow_sum, log2_mul_pow positive]
      omega
    have power : UnpackedFloat.ofScientific Format.binary64 m 0 =
        roundWithAccuracy Format.binary64 .positive (m <<< 53 * 1) (-53) .exact := by
      unfold UnpackedFloat.ofScientific
      rw [dif_neg (Nat.pos_iff_ne_zero.1 positive), if_neg (by decide), if_neg, if_pos (by decide)]
      · rfl
      · have bits : Format.binary64.exponentBits = 11 := rfl
        rw [bits]
        omega
    rw [slow, power, whole, roundWithAccuracy_exact size (by omega),
      rounded_filled (long_filled positive 0)]
    rfl

def signOf (n : Int) : Sign := if n < 0 then .negative else .positive

theorem ofInt_eq {n : Int} (nonzero : n ≠ 0) (word : n.natAbs.log2 ≤ 63) :
    Float.ofInt n = ofUnpacked (rounded (signOf n) (n.natAbs * Nat.pow 2 52) 1 (-52)) := by
  have positive : 0 < n.natAbs := by omega
  have magnitude := ofNat_eq positive word
  cases n with
  | ofNat n => exact magnitude
  | negSucc n =>
    have unfolded : Float.ofInt (Int.negSucc n) = -Float.ofNat (Int.negSucc n).natAbs := rfl
    have negative : signOf (Int.negSucc n) = -.positive := if_pos (Int.negSucc_lt_zero n)
    rw [unfolded, magnitude, negative, neg_rounded .positive (fits_filled positive word)]

end Scriptlet.Point
