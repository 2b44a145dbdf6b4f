import Scriptlet.Integer
import Scriptlet.Point.Layout
import Scriptlet.Tree.Expr

/-!
The values of the language. `unknown` is no value of a run: it stands where none could be
determined.
-/

namespace Scriptlet

inductive Value where
  | integer (n : Int64)
  | point (x : Float)
  | state (b : Bool)
  | text (s : String)
  | list (items : List Value)
  | empty
  | unknown

inductive Tag where
  | integer | point | state | text | list | empty | unknown
deriving DecidableEq

def Tag.name : Tag → String
  | .integer => "integer"
  | .point => "point"
  | .state => "state"
  | .text => "text"
  | .list => "list"
  | .empty => "empty"
  | .unknown => "unknown"

-- Whether values of this type have a numeric value of their own.
def Tag.isNumeric : Tag → Bool
  | .integer | .point | .state => true
  | .text | .list | .empty | .unknown => false

def Literal.value : Literal → Value
  | .integer n => .integer n
  | .point x => .point x
  | .state b => .state b
  | .text s => .text s
  | .empty => .empty

namespace Value

def tag : Value → Tag
  | integer _ => .integer
  | point _ => .point
  | state _ => .state
  | text _ => .text
  | list _ => .list
  | empty => .empty
  | unknown => .unknown

def isUnknown : Value → Bool
  | unknown => true
  | _ => false

mutual

-- The printable form of a value.
def shown : Value → String
  | integer n => Integer.text n
  | point x => Point.Layout.printable.write x
  | state b => if b then "YES" else "NO"
  | text s => s
  | list items => "[" ++ String.intercalate ", " (shownAll items) ++ "]"
  | empty => "empty"
  | unknown => "unknown"

def shownAll : List Value → List String
  | [] => []
  | v :: vs => shown v :: shownAll vs

end

-- States are themselves, numbers hold when not zero and text when not empty; nothing else does.
def truth : Value → Bool
  | state b => b
  | integer n => n != 0
  | point x => x != 0.0
  | text s => s != ""
  | list _ | empty | unknown => false

end Value

-- A value on its way through arithmetic.
inductive Number where
  | integer (n : Int64)
  | point (x : Float)

def Number.toPoint : Number → Float
  | .integer n => Point.ofInteger n
  | .point x => x

-- Whether arithmetic is to be done in integers or in points.
inductive Mode where
  | integer | point
deriving DecidableEq

-- The numeric side of a value. Numbers are themselves whatever the mode; a state counts as one or
-- zero and all else as zero, in the mode asked for.
def Value.number (v : Value) (mode : Mode) : Number :=
  match v, mode with
  | .integer n, _ => .integer n
  | .point x, _ => .point x
  | .state b, .integer => .integer (Integer.ofBool b)
  | .state b, .point => .point (Point.ofBool b)
  | _, .integer => .integer 0
  | _, .point => .point 0.0

end Scriptlet
