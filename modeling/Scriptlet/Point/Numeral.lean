import Scriptlet.Integer

/-!
Reading point values from text: a sign, then digits with at most one point, then an exponent. The
words `inf`, `infinity` and `nan` are read too, in any case. The result is the point value
nearest to what is written.
-/

namespace Scriptlet.Point

-- The nearest value to `digits * 10 ^ exponent`. Far out it is zero or infinite at once.
def ofDecimal (digits : Nat) (exponent : Int) : Float :=
  let size : Int := (Nat.toDigits 10 digits).length + exponent
  if digits = 0 ∨ size < -330 then 0.0
  else if 400 < size then 1.0 / 0.0
  else Float.ofScientific digits (decide (exponent < 0)) exponent.natAbs

-- An exponent after its mark: at most one sign, then digits to the end.
def exponent? (cs : List Char) : Option Int :=
  match cs with
  | '-' :: rest => (Integer.digits? rest).map fun n => -(n : Int)
  | '+' :: rest => (Integer.digits? rest).map fun n => (n : Int)
  | _ => (Integer.digits? cs).map fun n => (n : Int)

-- What follows the digits of a numeral: nothing, or an exponent up to the end.
def exponentPart? (cs : List Char) : Option Int :=
  match cs with
  | [] => some 0
  | mark :: rest => if mark = 'e' ∨ mark = 'E' then exponent? rest else none

-- A numeral without sign. There is a digit before the point or after it.
def magnitude? (cs : List Char) : Option Float :=
  let whole := cs.takeWhile Integer.isDigit
  let (fraction, rest) :=
    match cs.dropWhile Integer.isDigit with
    | '.' :: more => (more.takeWhile Integer.isDigit, more.dropWhile Integer.isDigit)
    | rest => ([], rest)
  if whole = [] ∧ fraction = [] then none
  else
    (exponentPart? rest).map fun e =>
      ofDecimal (Integer.ofDigits (whole ++ fraction)) (e - fraction.length)

def word? (cs : List Char) : Option Float :=
  let lower := cs.map Char.toLower
  if lower = ['i', 'n', 'f'] ∨ lower = ['i', 'n', 'f', 'i', 'n', 'i', 't', 'y'] then
    some (1.0 / 0.0)
  else if lower = ['n', 'a', 'n'] then some (0.0 / 0.0)
  else none

def unsigned? (cs : List Char) : Option Float := (magnitude? cs).or (word? cs)

def read? (cs : List Char) : Option Float :=
  match cs with
  | '-' :: rest => (unsigned? rest).map Float.neg
  | '+' :: rest => unsigned? rest
  | _ => unsigned? cs

end Scriptlet.Point
