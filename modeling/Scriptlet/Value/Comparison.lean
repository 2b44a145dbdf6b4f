import Scriptlet.Value.Failure

/-!
Equality and order of values. Numbers and states compare as numbers, text by code points, lists
element by element and for equality only; `empty` equals itself. All other pairs are unequal and
have no order.
-/

namespace Scriptlet.Value

-- The order of two texts by their code points.
def orderText (s t : String) : Ordering := compareOfLessAndEq s t

def orderInteger (a b : Int64) : Ordering := compareOfLessAndEq a.toInt b.toInt

-- The order of two points; there is none beside a value that is not a number.
def orderPoint? (x y : Float) : Option Ordering :=
  if x < y then some .lt else if y < x then some .gt else if x == y then some .eq else none

def orderNumber? : Number → Number → Option Ordering
  | .integer a, .integer b => some (orderInteger a b)
  | a, b => orderPoint? a.toPoint b.toPoint

def order? (v w : Value) : Option Ordering :=
  match v, w with
  | text s, text t => some (orderText s t)
  | _, _ =>
    if v.tag.isNumeric && w.tag.isNumeric then orderNumber? (v.number .integer) (w.number .integer)
    else none

mutual

def equal : Value → Value → Bool
  | list vs, list ws => equalAll vs ws
  | empty, empty => true
  | v, w => order? v w == some .eq

def equalAll : List Value → List Value → Bool
  | [], [] => true
  | v :: vs, w :: ws => equal v w && equalAll vs ws
  | _, _ => false

end

-- Whether an order that was found is one that the comparison asks for.
def accepts : Comparison → Ordering → Bool
  | .equal, o => o == .eq
  | .notEqual, o => o != .eq
  | .less, o => o == .lt
  | .lessEqual, o => o != .gt
  | .greater, o => o == .gt
  | .greaterEqual, o => o != .lt

-- The outcome of a comparison of two values that are both known.
def holds (op : Comparison) (v w : Value) : Bool :=
  match op with
  | .equal => equal v w
  | .notEqual => !equal v w
  | _ => (order? v w).any (accepts op)

-- Compares two values; only the comparison operators can be asked for.
def compare (op : BinaryOp) (v w : Value) : Except ValueFailure Value :=
  if v.isUnknown || w.isUnknown then .ok unknown
  else
    match op with
    | .comparison op => .ok (state (holds op v w))
    | other => .error (.unsupportedOperator other.symbol v.tag)

end Scriptlet.Value
