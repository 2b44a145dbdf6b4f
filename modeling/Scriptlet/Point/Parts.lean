/-!
A point value, a double precision number, taken apart into sign, mantissa and binary exponent.
-/

namespace Scriptlet.Point

-- What the bits of a point value say; a finite one is `± mantissa * 2 ^ exponent`.
inductive Parts where
  | notANumber
  | infinite (negative : Bool)
  | finite (negative : Bool) (mantissa : Nat) (exponent : Int)
deriving DecidableEq

-- The exponent of the last place of the smallest values.
def leastExponent : Int := -1074

-- Mantissas of values with an exponent of their own have this as their leading bit.
def leadingBit : Nat := Nat.pow 2 52

def parts (x : Float) : Parts :=
  let bits := x.toBits.toNat
  let negative := decide (Nat.pow 2 63 ≤ bits)
  let exponent := bits / leadingBit % 2048
  let fraction := bits % leadingBit
  if exponent = 2047 then
    if fraction = 0 then .infinite negative else .notANumber
  else if exponent = 0 then
    .finite negative fraction leastExponent
  else
    .finite negative (leadingBit + fraction) (leastExponent + exponent - 1)

-- The value `± mantissa * 2 ^ exponent`, for a mantissa below `2 ^ 53` and an exponent that is not
-- below `leastExponent`; such a value is exact.
def ofParts (negative : Bool) (mantissa : Nat) (exponent : Int) : Float :=
  let room := (exponent - leastExponent).toNat
  let shift := min (52 - mantissa.log2) room
  let whole := mantissa * Nat.pow 2 shift
  let magnitude := if whole < leadingBit then whole else (room - shift) * leadingBit + whole
  Float.ofBits (UInt64.ofNat (if negative then Nat.pow 2 63 + magnitude else magnitude))

-- The integer part of a finite value, cut off toward zero.
def truncate? (x : Float) : Option Int :=
  match parts x with
  | .finite negative mantissa exponent =>
    let magnitude :=
      if 0 ≤ exponent then mantissa * Nat.pow 2 exponent.toNat
      else mantissa / Nat.pow 2 (-exponent).toNat
    some (if negative then -(magnitude : Int) else magnitude)
  | _ => none

def ofInteger (n : Int64) : Float := Float.ofInt n.toInt

def ofBool (b : Bool) : Float := if b then 1.0 else 0.0

end Scriptlet.Point
