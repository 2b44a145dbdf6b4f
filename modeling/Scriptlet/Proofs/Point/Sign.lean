import Scriptlet.Proofs.Point.Rounding

/-!
The sign of a point value. A finite value has a sign, a mantissa and an exponent, and negation
changes only the first.
-/

namespace Scriptlet.Point

open Float.Model
open Float.Model.UnpackedFloat

variable {x : Float} {negative : Bool} {m : Nat} {e : Int}

-- The three fields of a double precision number.
theorem unpackExponent_toNat (b : BitVec Format.binary64.numBits) :
    (unpackExponent b).toNat = b.toNat / leadingBit % 2048 := by
  simp [unpackExponent, BitVec.extractLsb_toNat, Nat.shiftRight_eq_div_pow, leadingBit]

theorem unpackMantissa_toNat (b : BitVec Format.binary64.numBits) :
    (unpackMantissa b).toNat = b.toNat % leadingBit := by
  simp [unpackMantissa, BitVec.extractLsb_toNat, leadingBit]

theorem unpackSign_toNat (b : BitVec Format.binary64.numBits) :
    (unpackSign b).toNat = b.toNat / Nat.pow 2 63 := by
  have short : b.toNat < Nat.pow 2 64 := b.isLt
  have size : Nat.pow 2 64 = Nat.pow 2 63 * 2 := rfl
  have whole : b.toNat / Nat.pow 2 63 < 2 := by
    rw [Nat.div_lt_iff_lt_mul (pow_positive 63)]
    omega
  delta unpackSign
  rw [BitVec.toNat_cast, BitVec.extractLsb_toNat, Nat.shiftRight_eq_div_pow]
  exact Nat.mod_eq_of_lt whole

theorem one_append_toNat (b : BitVec 52) : (1#1 ++ b).toNat = leadingBit + b.toNat := by
  rw [BitVec.toNat_append, ← Nat.shiftLeft_add_eq_or_of_lt b.isLt]
  rfl

section Unpacked

variable {b : BitVec Format.binary64.numBits}

theorem mantissa_pos (filled : unpackMantissa b ≠ 0#52) : 0 < (unpackMantissa b).toNat :=
  Nat.pos_of_ne_zero fun zero => filled (BitVec.eq_of_toNat_eq zero)

theorem unpack_lowest (lowest : unpackExponent b = 0#11) :
    UnpackedFloat.unpack Format.binary64 b =
      stored (Sign.ofBitVec (unpackSign b)) (unpackMantissa b).toNat leastExponent := by
  unfold UnpackedFloat.unpack
  dsimp only
  rw [bias, lowest, if_neg (by decide), if_pos rfl]
  by_cases none : unpackMantissa b = 0#52
  · rw [dif_pos none, none]
    rfl
  · rw [dif_neg none, stored_pos (mantissa_pos none)]
    rfl

theorem unpack_normal (finite : unpackExponent b ≠ -1#11) (normal : unpackExponent b ≠ 0#11) :
    UnpackedFloat.unpack Format.binary64 b =
      stored (Sign.ofBitVec (unpackSign b)) (leadingBit + (unpackMantissa b).toNat)
        ((unpackExponent b).toNat - 1075) := by
  unfold UnpackedFloat.unpack
  dsimp only
  rw [bias, if_neg finite, if_neg normal, stored_pos (Nat.add_pos_left (by decide) _)]
  exact finite_eq rfl (one_append_toNat _) rfl

-- Negation takes a finite number apart and packs it with the other sign.
theorem pack_neg_unpack (finite : unpackExponent b ≠ -1#11) :
    UnpackedFloat.pack Format.binary64 (UnpackedFloat.unpack Format.binary64 b).neg =
      packComponents Format.binary64 (-Sign.ofBitVec (unpackSign b)) (unpackExponent b)
        (unpackMantissa b) := by
  have below := exponent_lt finite
  have small : (unpackMantissa b).toNat < leadingBit := (unpackMantissa b).isLt
  by_cases lowest : unpackExponent b = 0#11
  · rw [unpack_lowest lowest, neg_stored, lowest]
    by_cases none : unpackMantissa b = 0#52
    · rw [none]
      rfl
    · have short : (unpackMantissa b).toNat.log2 ≤ 51 := log2_le_of_lt small
      rw [stored_pos (mantissa_pos none), pack_finite, if_neg (by decide),
        if_neg (by rw [places]; omega), BitVec.ofNat_toNat, BitVec.setWidth_eq]
  · have leading : leadingBit = Nat.pow 2 52 := rfl
    have size : Nat.pow 2 (52 + 1) = Nat.pow 2 52 * 2 := rfl
    have full : (leadingBit + (unpackMantissa b).toNat).log2 = 52 :=
      log2_eq (by omega) (by omega)
    have positive : 0 < (unpackExponent b).toNat :=
      Nat.pos_of_ne_zero fun zero => lowest (BitVec.eq_of_toNat_eq zero)
    have exponent : (((unpackExponent b).toNat : Int) - 1075 + 1075).toNat =
        (unpackExponent b).toNat := by omega
    rw [unpack_normal finite lowest, neg_stored, pack_stored full (by omega) (by omega), exponent,
      BitVec.ofNat_toNat, BitVec.setWidth_eq]
    congr 1
    apply BitVec.eq_of_toNat_eq
    rw [BitVec.toNat_ofNat]
    exact (Nat.add_mod_left _ _).trans (Nat.mod_eq_of_lt small)

end Unpacked

def pattern (x : Float) : BitVec Format.binary64.numBits := x.toBits.toBitVec

-- What three fields mean.
def ofFields (negative : Bool) (exponent fraction : Nat) : Parts :=
  if exponent = 2047 then
    if fraction = 0 then .infinite negative else .notANumber
  else if exponent = 0 then
    .finite negative fraction leastExponent
  else
    .finite negative (leadingBit + fraction) (leastExponent + exponent - 1)

theorem parts_eq (x : Float) : parts x = ofFields (decide ((unpackSign (pattern x)).toNat ≠ 0))
    (unpackExponent (pattern x)).toNat (unpackMantissa (pattern x)).toNat := by
  have bits : (pattern x).toNat = x.toBits.toNat := rfl
  have sign : decide ((unpackSign (pattern x)).toNat ≠ 0) =
      decide (Nat.pow 2 63 ≤ x.toBits.toNat) := by
    rw [unpackSign_toNat, decide_eq_decide, bits, Nat.div_ne_zero_iff]
    exact and_iff_right (Nat.pos_iff_ne_zero.1 (pow_positive 63))
  rw [sign, unpackExponent_toNat, unpackMantissa_toNat, bits]
  rfl

theorem ofFields_finite {exponent fraction : Nat} (other : exponent ≠ 2047) :
    ∃ m e, ∀ negative, ofFields negative exponent fraction = .finite negative m e := by
  by_cases least : exponent = 0
  · exact ⟨_, _, fun negative => (if_neg other).trans (if_pos least)⟩
  · exact ⟨_, _, fun negative => (if_neg other).trans (if_neg least)⟩

theorem unpackExponent_ne_iff {b : BitVec Format.binary64.numBits} :
    unpackExponent b ≠ -1#11 ↔ (unpackExponent b).toNat ≠ 2047 := by
  have greatest : (-1#11).toNat = 2047 := rfl
  rw [← greatest]
  exact (not_congr BitVec.toNat_inj).symm

theorem parts_of_isFinite (finite : x.isFinite = true) :
    ∃ negative m e, parts x = .finite negative m e := by
  have other : unpackExponent (pattern x) ≠ -1#11 := exponent_of_isFinite finite
  obtain ⟨m, e, same⟩ := ofFields_finite (unpackExponent_ne_iff.1 other)
  exact ⟨_, m, e, (parts_eq x).trans (same _)⟩

theorem exponent_of_parts (taken : parts x = .finite negative m e) :
    (unpackExponent (pattern x)).toNat ≠ 2047 := by
  intro last
  rw [parts_eq, ofFields, if_pos last] at taken
  split at taken <;> cases taken

theorem isFinite_of_parts (taken : parts x = .finite negative m e) : x.isFinite = true := by
  have other := unpackExponent_ne_iff.2 (exponent_of_parts taken)
  have stored := exponent_lt other
  exact (unpack_within other (by omega) (by decide : -1074 ≤ 971)).isFinite

theorem parts_neg (taken : parts x = .finite negative m e) :
    parts (-x) = .finite (!negative) m e := by
  have other := exponent_of_parts taken
  have unfolded : pattern (-x) = UnpackedFloat.pack Format.binary64
      (UnpackedFloat.unpack Format.binary64 (pattern x)).neg := rfl
  have opposite : ∀ b : BitVec 1, decide ((-Sign.ofBitVec b).toBitVec.toNat ≠ 0) =
      !decide (b.toNat ≠ 0) := by decide
  obtain ⟨m', e', same⟩ := ofFields_finite other
  rw [parts_eq, same] at taken
  cases taken
  rw [parts_eq, unfolded, pack_neg_unpack (unpackExponent_ne_iff.2 other),
    unpackExponent_packComponents, unpackMantissa_packComponents, unpackSign_packComponents,
    opposite, same]

end Scriptlet.Point
