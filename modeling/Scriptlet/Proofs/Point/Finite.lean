import Scriptlet.Point.Numeral
import Scriptlet.Point.Parts

/-!
Finite point values. A double precision number is stored with a mantissa of 53 bits and an exponent
of at most 971, and what an operation gives overflows only when its exponent is greater. The bounds
here are coarse, but all that the numerals of source texts, integers and negation need to be finite.
-/

namespace Scriptlet.Point

open Float.Model
open Float.Model.UnpackedFloat

variable {u v : UnpackedFloat} {f : Float.Model} {x : Float} {sign : Sign}
  {m k bits bits' : Nat} {e e' high : Int}

theorem log2_le_of_lt (below : m < Nat.pow 2 (k + 1)) : m.log2 ≤ k := by
  by_cases zero : m = 0
  · subst zero
    exact Nat.zero_le _
  · exact Nat.le_of_lt_succ ((Nat.log2_lt zero).2 below)

theorem log2_le_log2 (below : m ≤ k) : m.log2 ≤ k.log2 :=
  log2_le_of_lt (Nat.lt_of_le_of_lt below Nat.lt_log2_self)

theorem log2_succ_le : (m + 1).log2 ≤ m.log2 + 1 := by
  have below : m < Nat.pow 2 (m.log2 + 1) := Nat.lt_log2_self
  have doubled : Nat.pow 2 (m.log2 + 1 + 1) = Nat.pow 2 (m.log2 + 1) * 2 := rfl
  apply log2_le_of_lt
  omega

theorem log2_mul_le : (m * k).log2 ≤ m.log2 + k.log2 + 1 := by
  apply log2_le_of_lt
  have below : m * k < _ := Nat.mul_lt_mul'' Nat.lt_log2_self Nat.lt_log2_self
  rw [← Nat.pow_add] at below
  have exponent : m.log2 + 1 + (k.log2 + 1) = m.log2 + k.log2 + 1 + 1 := by omega
  rw [exponent] at below
  exact below

theorem log2_shiftLeft_le : (m <<< k).log2 ≤ m.log2 + k := by
  induction k with
  | zero => exact Nat.le_refl _
  | succ k ih =>
    rw [Nat.shiftLeft_succ]
    by_cases zero : m <<< k = 0
    · rw [zero]
      exact Nat.zero_le _
    · rw [Nat.log2_two_mul zero]
      omega

-- A finite number with so many bits after the leading one, and an exponent not above `high`.
def Within (bits : Nat) (high : Int) : UnpackedFloat → Prop
  | .zero _ => True
  | .finite _ m e _ => m.log2 ≤ bits ∧ e ≤ high
  | _ => False

theorem finite_within {positive : 0 < m} (short : m.log2 ≤ bits) :
    Within bits e (.finite sign m e positive) :=
  ⟨short, Int.le_refl _⟩

theorem Within.mono (within : Within bits high u) (more : bits ≤ bits') : Within bits' high u := by
  cases u with
  | zero sign => exact trivial
  | finite sign m e positive => exact ⟨Nat.le_trans within.1 more, within.2⟩
  | infinity sign | notANumber => exact within.elim

theorem Within.ite {p : Prop} [Decidable p] (yes : p → Within bits high u)
    (no : ¬ p → Within bits high v) : Within bits high (if p then u else v) := by
  split
  · exact yes ‹_›
  · exact no ‹_›

theorem Within.dite {p : Prop} [Decidable p] {f : p → UnpackedFloat} {g : ¬ p → UnpackedFloat}
    (yes : ∀ h, Within bits high (f h)) (no : ∀ h, Within bits high (g h)) :
    Within bits high (if h : p then f h else g h) := by
  split
  · exact yes _
  · exact no _

theorem Within.isFinite (within : Within bits high u) : u.isFinite = true := by
  cases u with
  | zero | finite => rfl
  | infinity | notANumber => exact within.elim

theorem exponent_lt {b : BitVec 11} (other : b ≠ -1#11) : b.toNat < 2047 := by
  have bound := b.isLt
  have last : b.toNat ≠ 2047 := by
    intro same
    exact other (BitVec.eq_of_toNat_eq same)
  omega

theorem bias : (Format.binary64.exponentBias : Int) = 1023 := rfl

theorem places : Format.binary64.mantissaBits = 53 := rfl

theorem least : Format.binary64.minExponent = -1074 := rfl

theorem unpack_within {b : BitVec Format.binary64.numBits} (other : unpackExponent b ≠ -1#11)
    (bounded : ((unpackExponent b).toNat : Int) - 1075 ≤ high) (low : -1074 ≤ high) :
    Within 52 high (UnpackedFloat.unpack Format.binary64 b) := by
  have short : ∀ {w : Nat} (b : BitVec w), w ≤ 53 → b.toNat.log2 ≤ 52 := by
    intro w b width
    exact log2_le_of_lt (Nat.lt_of_lt_of_le b.isLt (Nat.pow_le_pow_right (by omega) width))
  unfold UnpackedFloat.unpack
  dsimp only
  rw [bias, if_neg other]
  refine .ite (fun lowest => .dite (fun _ => trivial) fun _ => ⟨short _ (by omega), ?_⟩)
    fun _ => ⟨short _ (by omega), bounded⟩
  rw [lowest]
  exact low

theorem exponent_of_isFinite {b : BitVec Format.binary64.numBits}
    (finite : (UnpackedFloat.unpack Format.binary64 b).isFinite = true) :
    unpackExponent b ≠ -1#11 := by
  intro same
  unfold UnpackedFloat.unpack at finite
  dsimp only at finite
  rw [if_pos same] at finite
  split at finite <;> cases finite

theorem isFinite_unpack (finite : f.isFinite = true) : Within 52 971 f.unpack := by
  have other : @unpackExponent Format.binary64 f.toBits.toBitVec ≠ -1#11 :=
    exponent_of_isFinite finite
  have stored := exponent_lt other
  exact unpack_within other (by omega) (by omega)

theorem unpack_pack (within : Within bits high u) (low : -1074 ≤ high) (top : high ≤ 971) :
    Within 52 high (Float.Model.pack u).unpack := by
  have stored : ∀ (sign : Sign) (b : Nat) (m : BitVec 52), b < 2047 → (b : Int) - 1075 ≤ high →
      Within 52 high (UnpackedFloat.unpack Format.binary64
        (packComponents Format.binary64 sign (BitVec.ofNat 11 b) m)) := by
    intro sign b m bound near
    have exponent : (BitVec.ofNat 11 b).toNat = b := by
      rw [BitVec.toNat_ofNat, Nat.mod_eq_of_lt (by omega)]
    have last : (-1#11).toNat = 2047 := rfl
    apply unpack_within
    · rw [unpackExponent_packComponents]
      intro same
      rw [same, last] at exponent
      omega
    · rw [unpackExponent_packComponents, exponent]
      exact near
    · exact low
  cases u with
  | zero sign => exact stored sign 0 0 (by omega) (by omega)
  | infinity sign | notANumber => exact within.elim
  | finite sign m e positive =>
    have exponent : e ≤ high := within.2
    unfold Float.Model.pack Float.Model.unpack UnpackedFloat.pack
    dsimp only
    rw [bias]
    split
    · rename_i above
      simp only [Nat.reducePow] at above
      omega
    · rename_i room
      simp only [Nat.reducePow] at room
      split
      · exact stored sign _ _ (by omega) (by omega)
      · exact stored sign 0 _ (by omega) (by omega)

theorem isFinite_pack (within : Within bits 971 u) : (Float.Model.pack u).isFinite = true :=
  (unpack_pack within (by omega) (Int.le_refl _)).isFinite

theorem isFinite_neg (finite : x.isFinite = true) : (-x).isFinite = true := by
  have stored := isFinite_unpack finite
  have negated : Within 52 971 x.toModel.unpack.neg := by
    cases found : x.toModel.unpack with
    | zero sign => exact trivial
    | finite sign m e positive =>
      rw [found] at stored
      exact stored
    | infinity sign | notANumber =>
      rw [found] at stored
      exact stored.elim
  exact isFinite_pack negated

theorem shiftRight_mantissa_le (em : ExtendedMantissa) (n : Nat) :
    (em >>> n).mantissa ≤ em.mantissa := by
  induction n with
  | zero => exact Nat.le_refl _
  | succ n ih => exact Nat.le_trans (Nat.div_le_self _ 2) ih

theorem roundedMantissa_le (em : ExtendedMantissa) : em.roundedMantissa ≤ em.mantissa + 1 := by
  obtain ⟨mantissa, round, sticky⟩ := em
  have rest := Nat.mod_lt mantissa (by omega : 0 < 2)
  cases round <;> cases sticky <;>
    simp only [ExtendedMantissa.roundedMantissa, ExtendedMantissa.accuracy,
      Accuracy.roundToNearestEven] <;> omega

theorem ofMantissaAndAccuracy_mantissa (accuracy : Accuracy) :
    (ExtendedMantissa.ofMantissaAndAccuracy m accuracy).mantissa = m := by
  cases accuracy with
  | exact => rfl
  | inexact order => cases order <;> rfl

theorem shiftToTargetExponent_le (m : Nat) (e : Int) (accuracy : Accuracy) :
    (shiftToTargetExponent Format.binary64 m e accuracy).1.mantissa ≤ m ∧
      ((shiftToTargetExponent Format.binary64 m e accuracy).2 ≤ e + m.log2 ∨
        (shiftToTargetExponent Format.binary64 m e accuracy).2 ≤ -1074) := by
  constructor
  · have shifted := shiftRight_mantissa_le (ExtendedMantissa.ofMantissaAndAccuracy m accuracy)
      (Format.binary64.targetExponent (totalExponent m e) - e).toNat
    rw [ofMantissaAndAccuracy_mantissa] at shifted
    exact shifted
  · simp only [shiftToTargetExponent, shiftToExponent, Format.targetExponent, totalExponent, places,
      least]
    omega

-- Both shifts and the carry between them take the exponent up by the bits there are.
theorem round_within {accuracy : Accuracy} (short : m.log2 ≤ bits)
    (room : e + 2 * bits + 1 ≤ high) (low : (bits : Int) - 1073 ≤ high) :
    Within (bits + 1) high (roundWithAccuracy Format.binary64 sign m e accuracy) := by
  obtain ⟨shorter, exponent⟩ := shiftToTargetExponent_le m e accuracy
  unfold roundWithAccuracy
  generalize shiftToTargetExponent Format.binary64 m e accuracy = first at *
  obtain ⟨em, e₁⟩ := first
  obtain ⟨shorter', exponent'⟩ := shiftToTargetExponent_le em.roundedMantissa e₁ .exact
  have rounded : em.roundedMantissa ≤ m + 1 :=
    Nat.le_trans (roundedMantissa_le em) (Nat.succ_le_succ shorter)
  have carried : em.roundedMantissa.log2 ≤ bits + 1 :=
    Nat.le_trans (log2_le_log2 rounded) (Nat.le_trans log2_succ_le (Nat.succ_le_succ short))
  dsimp only at *
  refine .dite (fun _ => trivial) fun _ => ⟨Nat.le_trans (log2_le_log2 shorter') carried, ?_⟩
  omega

theorem mul_within {positive : 0 < k} (within : Within bits e u) (short : k.log2 ≤ bits')
    (room : e + e' + 2 * (bits + bits' + 1 : Nat) + 1 ≤ high)
    (low : ((bits + bits' + 1 : Nat) : Int) - 1073 ≤ high) :
    Within (bits + bits' + 2) high
      (UnpackedFloat.mul Format.binary64 u (.finite sign k e' positive)) := by
  cases u with
  | zero sign => exact trivial
  | infinity sign | notANumber => exact within.elim
  | finite sign m e₁ _ =>
    obtain ⟨short', exponent⟩ := within
    have product : (m * k).log2 ≤ bits + bits' + 1 := Nat.le_trans log2_mul_le (by omega)
    exact round_within product (by omega) low

theorem div_within {positive : 0 < k} (within : Within bits e u) (short : k.log2 ≤ bits')
    (room : e - e' + 2 * (bits + bits' + 53 : Nat) + 1 ≤ high)
    (low : ((bits + bits' + 53 : Nat) : Int) - 1073 ≤ high) :
    Within (bits + bits' + 54) high
      (UnpackedFloat.div Format.binary64 u (.finite sign k e' positive)) := by
  cases u with
  | zero sign => exact trivial
  | infinity sign | notANumber => exact within.elim
  | finite sign m e₁ _ =>
    obtain ⟨short', exponent⟩ := within
    unfold UnpackedFloat.div
    simp only [divCore, Format.targetExponent, totalExponent, places, least]
    refine round_within ?_ (by omega) low
    -- Before the division the dividend is shifted by as many places as the quotient needs.
    refine Nat.le_trans (log2_le_log2 (Nat.div_le_self _ _)) (Nat.le_trans log2_shiftLeft_le ?_)
    omega

theorem integer_within (short : m.log2 ≤ 63) :
    Within 116 300 (UnpackedFloat.round Format.binary64 sign m 0) := by
  unfold UnpackedFloat.round
  simp only [decreaseExponent, Format.targetExponent, totalExponent, places, least]
  refine round_within (Nat.le_trans log2_shiftLeft_le ?_) (by omega) (by omega)
  omega

theorem toFloat_within (w : UInt64) : Within 52 300 w.toFloat.toModel.unpack := by
  have short : w.toNat.log2 ≤ 63 := log2_le_of_lt w.toNat_lt
  have whole : Within 116 300 (UnpackedFloat.ofUInt64 Format.binary64 w) := by
    unfold UnpackedFloat.ofUInt64 UnpackedFloat.ofNat UnpackedFloat.ofInt UnpackedFloat.normalize
    split
    · apply integer_within
      simp
    · exact trivial
    · exact integer_within (by simpa using short)
  exact unpack_pack whole (by omega) (by omega)

def isModerate : UnpackedFloat → Bool
  | .finite _ m e _ => decide (m.log2 ≤ 52 ∧ -52 ≤ e ∧ e ≤ 52)
  | _ => false

theorem powers_moderate : (Float.exactlyRepresentablePowersOfTen.all fun x =>
    isModerate x.toModel.unpack) = true := by
  decide +kernel

theorem power_finite (i : Nat) (inside : i < Float.exactlyRepresentablePowersOfTen.size) :
    ∃ sign m e positive, Float.exactlyRepresentablePowersOfTen[i].toModel.unpack =
      .finite sign m e positive ∧ m.log2 ≤ 52 ∧ -52 ≤ e ∧ e ≤ 52 := by
  have moderate := Array.all_eq_true.1 powers_moderate i inside
  generalize Float.exactlyRepresentablePowersOfTen[i].toModel.unpack = power at moderate
  cases power with
  | finite sign m e positive => exact ⟨sign, m, e, positive, rfl, of_decide_eq_true moderate⟩
  | zero sign | infinity sign | notANumber => cases moderate

theorem model_ofScientific_isFinite (short : m.log2 ≤ 63) (near : e.natAbs ≤ 9) :
    (Float.Model.ofScientific m e).isFinite = true := by
  have width := places
  have power : ∀ j, j ≤ 9 → (10 ^ j).log2 ≤ 29 := by
    intro j bounded
    exact Nat.le_trans (log2_le_log2 (Nat.pow_le_pow_right (by omega) bounded)) (by decide)
  have within : Within 147 971 (UnpackedFloat.ofScientific Format.binary64 m e) := by
    unfold UnpackedFloat.ofScientific
    refine .dite (fun _ => trivial) fun _ => .ite (fun far => ?_) fun _ => .ite (fun _ => trivial)
      fun _ => .ite (fun _ => ?_) fun _ => ?_
    · have far : e > 2048 := far
      omega
    · have shifted : (m <<< 53).log2 ≤ 116 := Nat.le_trans log2_shiftLeft_le (by omega)
      exact mul_within (finite_within shifted) (power _ (by omega)) (by omega) (by omega)
    · exact (div_within (finite_within short) (power _ (by omega)) (by omega) (by omega)).mono
        (by omega)
  exact isFinite_pack within

-- A decimal with few digits and a small exponent is far from the greatest numbers there are.
theorem isFinite_ofScientific (short : m.log2 ≤ 63) (near : k ≤ 9) (negative : Bool) :
    (Float.ofScientific m negative k).isFinite = true := by
  unfold Float.ofScientific
  split
  · obtain ⟨sign, m₂, e₂, positive, found, short', low, high⟩ := power_finite k
      (by simp [Float.exactlyRepresentablePowersOfTen]; omega)
    have stored := toFloat_within m.toUInt64
    dsimp only
    split
    · apply isFinite_pack
      rw [found]
      exact div_within stored short' (by omega) (by omega)
    · apply isFinite_pack
      rw [found]
      exact mul_within stored short' (by omega) (by omega)
  · cases negative with
    | false => exact model_ofScientific_isFinite short near
    | true =>
      refine model_ofScientific_isFinite short ?_
      rw [if_pos rfl, Int.negOfNat_eq, Int.natAbs_neg]
      exact near

theorem isFinite_ofDecimal {digits : Nat} (short : digits.log2 ≤ 63) (near : k ≤ 9) :
    (ofDecimal digits (-(k : Int))).isFinite = true := by
  have few : (Nat.toDigits 10 digits).length ≤ 20 := by
    rw [Nat.length_toDigits_le_iff (by omega) (by omega)]
    refine Nat.lt_of_lt_of_le Nat.lt_log2_self (Nat.le_trans (Nat.pow_le_pow_right (by omega)
      (Nat.succ_le_succ short)) (by decide))
  unfold ofDecimal
  dsimp only
  split
  · decide
  · split
    · omega
    · exact isFinite_ofScientific short (by omega) _

theorem isFinite_ofNat (short : m.log2 ≤ 63) : (Float.ofNat m).isFinite = true :=
  isFinite_ofScientific short (Nat.zero_le _) false

theorem isFinite_ofInteger (n : Int64) : (ofInteger n).isFinite = true := by
  have lowest := n.le_toInt
  have greatest := n.toInt_lt
  have short : ∀ m : Nat, m ≤ 9223372036854775808 → m.log2 ≤ 63 := by
    intro m bounded
    exact log2_le_log2 bounded
  unfold ofInteger
  cases found : n.toInt with
  | ofNat m =>
    rw [found, Int.ofNat_eq_natCast] at greatest
    exact isFinite_ofNat (short m (by omega))
  | negSucc m => exact isFinite_neg (isFinite_ofNat (short _ (by omega)))

theorem isFinite_ofBool (b : Bool) : (ofBool b).isFinite = true := by
  cases b <;> decide

end Scriptlet.Point
