import Scriptlet.Proofs.Point.Rounding
import Scriptlet.Proofs.Target.Semantics

/-!
Quotients of whole numbers. Dividing two point values rounds once, and so does Python, which
divides the whole numbers themselves: where both numbers are exact as point values, the quotients
are the same.
-/

namespace Scriptlet.Point

open Float.Model
open Float.Model.UnpackedFloat
open Target

variable {a b : Int}

-- A whole number that a point value holds without rounding.
def IsExact (n : Int) : Prop := ∃ m k : Nat, m < Nat.pow 2 53 ∧ n.natAbs = m * Nat.pow 2 k

theorem IsExact.ofInt (exact : IsExact a) (nonzero : a ≠ 0) (word : a.natAbs.log2 ≤ 63) :
    ∃ f, f.log2 = 52 ∧ f * Nat.pow 2 a.natAbs.log2 = a.natAbs * Nat.pow 2 52 ∧
      (Float.ofInt a).toModel.unpack = stored (signOf a) f (a.natAbs.log2 - 52) := by
  obtain ⟨m, k, short, whole⟩ := exact
  have magnitude : 0 < a.natAbs := by omega
  have positive : 0 < m := by
    cases m with
    | zero =>
      rw [Nat.zero_mul] at whole
      omega
    | succ m => exact Nat.succ_pos m
  have few : m.log2 ≤ 52 := log2_le_of_lt short
  have size : a.natAbs.log2 = m.log2 + k := by rw [whole, log2_mul_pow positive]
  have filled : (m * Nat.pow 2 (52 - m.log2)).log2 = 52 := by
    rw [log2_mul_pow positive]
    omega
  have same : m * Nat.pow 2 (52 - m.log2) * Nat.pow 2 a.natAbs.log2 =
      a.natAbs * Nat.pow 2 52 := by
    have exponent : 52 - m.log2 + (m.log2 + k) = k + 52 := by omega
    rw [size, whole, Nat.mul_assoc, ← pow_sum, exponent, pow_sum, Nat.mul_assoc]
  refine ⟨_, filled, same, ?_⟩
  rw [ofInt_eq nonzero word, unpack_rounded (fits_filled magnitude word), ← same,
    rounded_filled (long_of_full filled), rounded_exact filled, Int.add_comm]
  rfl

def isPower (e : Int) : UnpackedFloat → Bool
  | .finite .positive m e' _ => decide (m = Nat.pow 2 52 ∧ e' = e)
  | _ => false

theorem powers_of_two : ∀ s : Fin 128,
    isPower (-(s : Int) - 52) (ofParts false 1 (-(s : Int))).toModel.unpack = true := by
  decide +kernel

theorem power_stored {s : Nat} (few : s < 128) :
    (ofParts false 1 (-(s : Int))).toModel.unpack =
      stored .positive (Nat.pow 2 52) (-(s : Int) - 52) := by
  have power := powers_of_two ⟨s, few⟩
  dsimp only at power
  generalize (ofParts false 1 (-(s : Int))).toModel.unpack = u at power
  cases u with
  | finite sign m e positive =>
    cases sign with
    | positive =>
      have same : m = Nat.pow 2 52 ∧ e = -(s : Int) - 52 := of_decide_eq_true power
      obtain ⟨rfl, rfl⟩ := same
      rfl
    | negative => cases power
  | _ => cases power

-- Two mantissas divided, and the whole numbers they stand for.
theorem rounded_mantissas {sign : Sign} {f g p q shift : Nat} (fits : f.log2 = 52)
    (fits' : g.log2 = 52) (positive : 0 < p) (positive' : 0 < q)
    (filled : f * Nat.pow 2 p.log2 = p * Nat.pow 2 52)
    (filled' : g * Nat.pow 2 q.log2 = q * Nat.pow 2 52) (places : shift + p.log2 = 63 + q.log2) :
    rounded sign (f * Nat.pow 2 53) g (p.log2 - q.log2 - 53) =
      rounded sign (p * Nat.pow 2 shift) q (-(shift : Int)) := by
  have long : ∀ {n d : Nat}, 0 < d → d.log2 + 53 ≤ n.log2 → 52 ≤ (n / d).log2 := by
    intro n d divisor longer
    have least := (log2_div divisor (Nat.lt_of_lt_of_le (by omega) longer)).1
    omega
  have mantissas : 52 ≤ (f * Nat.pow 2 53 / g).log2 :=
    long (pos_of_full fits') (Nat.le_of_eq (by rw [log2_mul_pow (pos_of_full fits), fits, fits']))
  have wholes : 52 ≤ (p * Nat.pow 2 shift / q).log2 := by
    apply long positive'
    rw [log2_mul_pow positive]
    omega
  have common : 52 ≤ (p * Nat.pow 2 (53 + q.log2) / (q * Nat.pow 2 p.log2)).log2 := by
    apply long (Nat.mul_pos positive' (pow_positive p.log2))
    rw [log2_mul_pow positive, log2_mul_pow positive']
    omega
  have exponent : (p.log2 - q.log2 - 53 : Int) = -(shift : Int) + (10 : Nat) := by omega
  have above : f * Nat.pow 2 53 * (Nat.pow 2 p.log2 * Nat.pow 2 q.log2) =
      p * Nat.pow 2 (53 + q.log2) * Nat.pow 2 52 := by
    rw [Nat.mul_mul_mul_comm, filled, ← pow_sum, Nat.mul_right_comm]
  have below : g * (Nat.pow 2 p.log2 * Nat.pow 2 q.log2) = q * Nat.pow 2 p.log2 * Nat.pow 2 52 := by
    rw [Nat.mul_comm (Nat.pow 2 p.log2), ← Nat.mul_assoc, filled', Nat.mul_right_comm]
  have above' : p * Nat.pow 2 shift * Nat.pow 2 p.log2 =
      p * Nat.pow 2 (53 + q.log2) * Nat.pow 2 10 := by
    have split : 63 + q.log2 = 53 + q.log2 + 10 := by omega
    rw [Nat.mul_assoc, ← pow_sum, places, split, pow_sum (53 + q.log2), ← Nat.mul_assoc]
  calc rounded sign (f * Nat.pow 2 53) g (p.log2 - q.log2 - 53)
      = rounded sign (p * Nat.pow 2 (53 + q.log2) * Nat.pow 2 52)
          (q * Nat.pow 2 p.log2 * Nat.pow 2 52) (p.log2 - q.log2 - 53) := by
        rw [← above, ← below,
          rounded_scaled mantissas (Nat.mul_pos (pow_positive p.log2) (pow_positive q.log2))]
    _ = rounded sign (p * Nat.pow 2 (53 + q.log2)) (q * Nat.pow 2 p.log2)
          (-(shift : Int) + (10 : Nat)) := by rw [rounded_scaled common (pow_positive 52), exponent]
    _ = rounded sign (p * Nat.pow 2 shift) q (-(shift : Int)) := by
        rw [← rounded_filled common, ← above', rounded_scaled wholes (pow_positive p.log2)]

-- A quotient with at least two bits to spare, written down as a whole number and scaled back.
theorem marked_mul {n d shift : Nat} (long : 54 ≤ (n / d).log2) (word : (n / d).log2 ≤ 63)
    (few : shift < 128) :
    Float.ofInt ((n / d ||| if n % d = 0 then 0 else 1 : Nat) : Int) *
      ofParts false 1 (-(shift : Int)) = ofUnpacked (rounded .positive n d (-(shift : Int))) := by
  have enough : 52 ≤ (n / d).log2 := Nat.le_trans (by omega) long
  have size := log2_marked (pos_of_long enough)
  have spare : excess n d ≤ 11 := by
    unfold excess
    omega
  have marked : Float.ofInt ((n / d ||| if n % d = 0 then 0 else 1 : Nat) : Int) =
      ofUnpacked (rounded .positive n d 0) := by
    have positive := pos_of_long (Nat.le_trans enough (Nat.le_of_eq size.symm))
    have whole := ofNat_eq positive (Nat.le_trans (Nat.le_of_eq size) word)
    rw [rounded_filled, rounded_marked long] at whole
    · exact whole
    · rw [Nat.div_one, size]
      exact enough
  have exponent : 0 + (-(shift : Int) - 52) + 52 = -(shift : Int) := by omega
  have product := mul_rounded .positive (e := 0) ⟨enough, by omega, by omega⟩
    ⟨enough, by omega, by omega⟩ (power_stored few)
  rw [marked, product, exponent]

theorem signed_eq (value : Sign → Float) (opposite : -value .positive = value .negative) :
    (if decide (a < 0) != decide (b < 0) then -value .positive else value .positive) =
      value (signOf a / signOf b) := by
  unfold signOf
  by_cases left : a < 0 <;> by_cases right : b < 0 <;> simp only [left, right]
  · rfl
  · exact opposite
  · exact opposite
  · rfl

theorem nearestQuotient_eq (nonzero : a ≠ 0) (divisor : b ≠ 0) (word : a.natAbs.log2 ≤ 63)
    (word' : b.natAbs.log2 ≤ 63) {shift : Nat}
    (places : shift = 63 + b.natAbs.log2 - a.natAbs.log2) :
    Object.nearestQuotient a b = ofUnpacked (rounded (signOf a / signOf b)
      (a.natAbs * Nat.pow 2 shift) b.natAbs (-(shift : Int))) := by
  have positive : 0 < a.natAbs := by omega
  have positive' : 0 < b.natAbs := by omega
  have filled : (a.natAbs * Nat.pow 2 shift).log2 = b.natAbs.log2 + 63 := by
    rw [log2_mul_pow positive]
    omega
  obtain ⟨least, most⟩ := log2_div (n := a.natAbs * Nat.pow 2 shift) positive' (by omega)
  have spare : excess (a.natAbs * Nat.pow 2 shift) b.natAbs ≤ 11 := by
    unfold excess
    omega
  have opposite := neg_rounded .positive
    (⟨by omega, by omega, by omega⟩ : Fits (a.natAbs * Nat.pow 2 shift) b.natAbs (-(shift : Int)))
  unfold Object.nearestQuotient
  dsimp only
  rw [← places, marked_mul (by omega) (by omega) (by omega)]
  exact signed_eq (fun sign => ofUnpacked (rounded sign _ _ _)) opposite

theorem nearestQuotient_zero (word : b.natAbs.log2 ≤ 63) :
    Object.nearestQuotient 0 b = ofUnpacked (.zero (signOf 0 / signOf b)) := by
  have nothing : ∀ shift, 0 * Nat.pow 2 shift / b.natAbs |||
      (if 0 * Nat.pow 2 shift % b.natAbs = 0 then 0 else 1) = 0 := by
    intro shift
    rw [Nat.zero_mul, Nat.zero_mod, Nat.zero_div, if_pos rfl, Nat.or_zero]
  have product : ∀ shift : Nat, shift < 128 → Float.ofInt ((0 : Nat) : Int) *
      ofParts false 1 (-(shift : Int)) = ofUnpacked (.zero .positive) := by
    intro shift few
    have unfolded : Float.ofInt ((0 : Nat) : Int) * ofParts false 1 (-(shift : Int)) =
      ofUnpacked (UnpackedFloat.mul Format.binary64 (Float.ofInt ((0 : Nat) : Int)).toModel.unpack
        (ofParts false 1 (-(shift : Int))).toModel.unpack) := rfl
    rw [unfolded, power_stored few, stored_pos (pow_positive 52)]
    rfl
  have few : 63 + b.natAbs.log2 - Nat.log2 0 < 128 := Nat.lt_of_le_of_lt (Nat.sub_le _ _) (by omega)
  unfold Object.nearestQuotient
  dsimp only [Int.natAbs_zero]
  rw [nothing, product _ few]
  exact signed_eq (fun sign => ofUnpacked (.zero sign)) rfl

theorem ofInt_div_exact (nonzero : a ≠ 0) (divisor : b ≠ 0) (word : a.natAbs.log2 ≤ 63)
    (word' : b.natAbs.log2 ≤ 63) (exact : IsExact a) (exact' : IsExact b) {shift : Nat}
    (places : shift = 63 + b.natAbs.log2 - a.natAbs.log2) :
    Float.ofInt a / Float.ofInt b = ofUnpacked (rounded (signOf a / signOf b)
      (a.natAbs * Nat.pow 2 shift) b.natAbs (-(shift : Int))) := by
  have aligned : shift + a.natAbs.log2 = 63 + b.natAbs.log2 := by omega
  obtain ⟨f, fits, filled, stored⟩ := exact.ofInt nonzero word
  obtain ⟨g, fits', filled', stored'⟩ := exact'.ofInt divisor word'
  have unfolded : Float.ofInt a / Float.ofInt b = ofUnpacked (UnpackedFloat.div Format.binary64
    (Float.ofInt a).toModel.unpack (Float.ofInt b).toModel.unpack) := rfl
  have exponent : (a.natAbs.log2 - 52 - (b.natAbs.log2 - 52) - 53 : Int) =
      a.natAbs.log2 - b.natAbs.log2 - 53 := by omega
  rw [unfolded, stored, stored', div_stored fits fits' (by omega), exponent,
    rounded_mantissas fits fits' (by omega) (by omega) filled filled' aligned]

theorem quotient_exact (divisor : b ≠ 0) (word : a.natAbs.log2 ≤ 63)
    (word' : b.natAbs.log2 ≤ 63) (exact : IsExact a) (exact' : IsExact b) :
    Float.ofInt a / Float.ofInt b = Object.nearestQuotient a b := by
  by_cases nonzero : a = 0
  · obtain ⟨g, fits', -, stored'⟩ := exact'.ofInt divisor word'
    have unfolded : Float.ofInt 0 / Float.ofInt b = ofUnpacked (UnpackedFloat.div Format.binary64
      (Float.ofInt 0).toModel.unpack (Float.ofInt b).toModel.unpack) := rfl
    rw [nonzero, nearestQuotient_zero word', unfolded, stored',
      stored_pos (pos_of_full fits')]
    rfl
  · rw [nearestQuotient_eq nonzero divisor word word' rfl,
      ofInt_div_exact nonzero divisor word word' exact exact' rfl]

end Scriptlet.Point
