import Scriptlet.Point.Shortest

/-!
How point values are written. The digits are always the fewest that read back; a layout decides
when they stand in positional form and how an exponent is spelled.
-/

namespace Scriptlet.Point

structure Layout where
  -- The exponents of the leading digit for which the number is written without exponent.
  positional : Int → Bool
  -- Whether a whole number in positional form ends in `.0`.
  keepsZero : Bool
  -- Whether an exponent that is not negative carries a plus sign.
  plusSign : Bool
  -- The least number of digits of an exponent.
  exponentDigits : Nat

namespace Layout

-- The printable form: `0.0001`, `7.5`, `3.0`, `1e+16`, `1.5e-05`.
def printable : Layout := ⟨fun e => -4 ≤ e ∧ e < 16, true, true, 2⟩

-- A literal of the generated script: `0.0001`, `7.5`, `3.0`, `1e16`, `1.5e-5`.
def literal : Layout := ⟨fun e => -4 ≤ e ∧ e < 16, true, false, 1⟩

-- Never an exponent, and whole numbers without a point: `0.000015`, `7.5`, `3`.
def plain : Layout := ⟨fun _ => true, false, false, 1⟩

def zeros (n : Nat) : List Char := List.replicate n '0'

-- Digits with a point `places` from their right end, filled with zeros where there are none.
def withPoint (digits : List Char) (places : Nat) : List Char :=
  let padded := zeros (places + 1 - digits.length) ++ digits
  padded.take (padded.length - places) ++ '.' :: padded.drop (padded.length - places)

def positionalText (layout : Layout) (d : Decimal) : List Char :=
  let digits := Nat.toDigits 10 d.digits
  if 0 ≤ d.exponent then
    digits ++ zeros d.exponent.toNat ++ if layout.keepsZero then ['.', '0'] else []
  else withPoint digits (-d.exponent).toNat

def exponentText (layout : Layout) (e : Int) : List Char :=
  let digits := Nat.toDigits 10 e.natAbs
  let sign := if e < 0 then ['-'] else if layout.plusSign then ['+'] else []
  'e' :: sign ++ zeros (layout.exponentDigits - digits.length) ++ digits

def scientificText (layout : Layout) (d : Decimal) : List Char :=
  let mantissa :=
    match Nat.toDigits 10 d.digits with
    | lead :: next :: more => lead :: '.' :: next :: more
    | short => short
  mantissa ++ layout.exponentText d.leadingExponent

def magnitudeText (layout : Layout) (d : Decimal) : List Char :=
  if d.digits = 0 ∨ layout.positional d.leadingExponent then layout.positionalText d
  else layout.scientificText d

def write (layout : Layout) (x : Float) : String :=
  let sign (negative : Bool) := if negative then ['-'] else []
  match parts x with
  | .notANumber => "NaN"
  | .infinite negative => String.ofList (sign negative ++ ['i', 'n', 'f'])
  | .finite negative mantissa exponent =>
    let decimal := if mantissa = 0 then ⟨0, 0⟩ else shortest mantissa exponent
    String.ofList (sign negative ++ layout.magnitudeText decimal)

end Layout

end Scriptlet.Point
