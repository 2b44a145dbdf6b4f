/-!
Integers of 64 bits. Arithmetic is exact or refused: `ofInt?` keeps a result only if it fits.
-/

namespace Scriptlet.Integer

def least : Int := -9223372036854775808

def greatest : Int := 9223372036854775807

-- The 64-bit integer of value `n`, if there is one.
def ofInt? (n : Int) : Option Int64 :=
  if least ≤ n ∧ n ≤ greatest then some (Int64.ofInt n) else none

def add? (a b : Int64) : Option Int64 := ofInt? (a.toInt + b.toInt)

def sub? (a b : Int64) : Option Int64 := ofInt? (a.toInt - b.toInt)

def mul? (a b : Int64) : Option Int64 := ofInt? (a.toInt * b.toInt)

def neg? (a : Int64) : Option Int64 := ofInt? (-a.toInt)

-- The quotient cut off toward zero.
def div? (a b : Int64) : Option Int64 := ofInt? (a.toInt.tdiv b.toInt)

-- The remainder that the cut off quotient leaves, with the sign of `a`. It is refused where that
-- quotient does not fit.
def rem? (a b : Int64) : Option Int64 := (div? a b).map fun _ => a % b

-- The remainder moved to the side of the divisor.
def mod? (a b : Int64) : Option Int64 :=
  (rem? a b).map fun r => if r != 0 && (decide (r < 0) != decide (b < 0)) then r + b else r

def ofBool (b : Bool) : Int64 := if b then 1 else 0

def text (n : Int64) : String := toString n.toInt

def isDigit (c : Char) : Bool := '0' ≤ c && c ≤ '9'

def digitValue (c : Char) : Nat := c.toNat - '0'.toNat

-- The number that a string of decimal digits writes.
def ofDigits (cs : List Char) : Nat := cs.foldl (fun n c => 10 * n + digitValue c) 0

-- The number that a non-empty string of decimal digits writes, and nothing else.
def digits? (cs : List Char) : Option Nat :=
  if cs ≠ [] ∧ cs.all isDigit then some (ofDigits cs) else none

-- A decimal integer with at most one sign and no blanks, refused if it does not fit.
def read? (cs : List Char) : Option Int64 :=
  match cs with
  | '-' :: rest => (digits? rest).bind fun n => ofInt? (-(n : Int))
  | '+' :: rest => (digits? rest).bind fun n => ofInt? n
  | _ => (digits? cs).bind fun n => ofInt? n

theorem toInt_ofInt? {n : Int} {a : Int64} (h : ofInt? n = some a) : a.toInt = n := by
  unfold ofInt? least greatest at h
  split at h
  · rename_i bounds
    cases h
    exact Int64.toInt_ofInt_of_le (by omega) (by omega)
  · cases h

theorem ofInt?_toInt (a : Int64) : ofInt? a.toInt = some a := by
  have low := Int64.le_toInt a
  have high := Int64.toInt_lt a
  unfold ofInt? least greatest
  rw [if_pos (by omega)]
  simp

end Scriptlet.Integer
