import Scriptlet.Point.Parts

/-!
The fewest decimal digits that still read back as a given point value. A decimal reads back if it
lies between the midpoints to the two neighbours, midpoints included when the mantissa is even.
For each number of digits only the two decimals around the value need a look.
-/

namespace Scriptlet.Point

-- The decimal `digits * 10 ^ exponent`.
structure Decimal where
  digits : Nat
  exponent : Int
deriving DecidableEq

namespace Decimal

-- The exponent of the leading digit.
def leadingExponent (d : Decimal) : Int :=
  d.exponent + (Nat.toDigits 10 d.digits).length - 1

-- The same number without zeros at the end, looking at no more than `fuel` of them.
def trimZeros : Nat → Decimal → Decimal
  | 0, d => d
  | fuel + 1, d =>
    if d.digits ≠ 0 ∧ d.digits % 10 = 0 then trimZeros fuel ⟨d.digits / 10, d.exponent + 1⟩ else d

end Decimal

-- `10 ^ k` is the least power of ten above `mantissa * 2 ^ exponent`.
def decimalSize (mantissa : Nat) (exponent : Int) : Int :=
  let scaled :=
    if 0 ≤ exponent then mantissa * Nat.pow 2 exponent.toNat * Nat.pow 10 400
    else mantissa * Nat.pow 10 400 / Nat.pow 2 (-exponent).toNat
  (Nat.toDigits 10 scaled).length - 400

-- The decimal of `count` digits that reads back as `mantissa * 2 ^ exponent`, if there is one: the
-- nearer of two, and the greater if both are equally near.
def decimalOf? (mantissa : Nat) (exponent size : Int) (count : Nat) : Option Decimal :=
  let place := size - count
  -- All quantities below are in units of a quarter of the last binary place.
  let unit := Nat.pow 2 (exponent - 2).toNat * Nat.pow 10 (-place).toNat
  let ten := Nat.pow 10 place.toNat * Nat.pow 2 (2 - exponent).toNat
  let value := 4 * mantissa * unit
  let low := (4 * mantissa - if mantissa = leadingBit then 1 else 2) * unit
  let high := (4 * mantissa + 2) * unit
  let closed := mantissa % 2 == 0
  let below := value / ten
  let above := below + 1
  let belowFits := decide (low < below * ten) || closed && low == below * ten
  let aboveFits := decide (above * ten < high) || closed && above * ten == high
  if belowFits && (!aboveFits || decide (value - below * ten < above * ten - value)) then
    some ⟨below, place⟩
  else if aboveFits then some ⟨above, place⟩
  else none

-- The shortest decimal that reads back as `mantissa * 2 ^ exponent`, for a mantissa above zero.
def shortest (mantissa : Nat) (exponent : Int) : Decimal :=
  let size := decimalSize mantissa exponent
  let found := (List.range 17).findSome? fun n => decimalOf? mantissa exponent size (n + 1)
  (found.getD ⟨0, 0⟩).trimZeros 20

end Scriptlet.Point
