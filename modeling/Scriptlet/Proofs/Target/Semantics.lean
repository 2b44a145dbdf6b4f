import Scriptlet.Point.Layout
import Scriptlet.Point.Remainder
import Scriptlet.Target.Lower
import Scriptlet.Text.Blank

/-!
What generated Python does when it is run, for scripts without functions. Whole numbers have no
bound and truth values are whole numbers; lists are compared item by item and texts by code
points; `%` has the sign of the divisor. An operation that Python refuses, or that is not
described here, ends the run: a run that comes to its end has met nothing else.
-/

namespace Scriptlet.Target

inductive Object where
  | int (n : Int)
  | bool (b : Bool)
  | str (s : String)
  | list (items : List Object)
  | none
  | float (x : Float)

inductive Raised where
  | unbound (name : String)
  | divisionByZero
  | refused
deriving DecidableEq

namespace Object

-- Truth values are whole numbers.
def int? : Object → Option Int
  | int n => some n
  | bool b => some (if b then 1 else 0)
  | _ => Option.none

def truth : Object → Bool
  | int n => n != 0
  | bool b => b
  | str s => s != ""
  | list items => !items.isEmpty
  | none => false
  | float x => x != 0.0

-- Numbers of at most 64 bits, which is all that quotients are described for.
def isWord (n : Int) : Bool := n.natAbs < Nat.pow 2 64

-- The point value nearest to a quotient. The division keeps at least 63 bits, and the last of them
-- is set where something was cut off, so nothing is rounded twice.
def nearestQuotient (a b : Int) : Float :=
  let shift := 63 + b.natAbs.log2 - a.natAbs.log2
  let scaled := a.natAbs * Nat.pow 2 shift
  let cut := if scaled % b.natAbs = 0 then 0 else 1
  let magnitude := Float.ofInt ((scaled / b.natAbs ||| cut : Nat) : Int) *
    Point.ofParts false 1 (-(shift : Int))
  if decide (a < 0) != decide (b < 0) then -magnitude else magnitude

def intArithmetic (op : Arithmetic) (a b : Int) : Except Raised Object :=
  match op with
  | .add => .ok (int (a + b))
  | .subtract => .ok (int (a - b))
  | .multiply => .ok (int (a * b))
  | .divide =>
    if b = 0 then .error .divisionByZero
    else if isWord a && isWord b then .ok (float (nearestQuotient a b))
    else .error .refused
  | .modulo => if b = 0 then .error .divisionByZero else .ok (int (a.fmod b))

-- The remainder has the sign of the divisor, and so has a remainder of zero.
def floatRemainder (x y : Float) : Float :=
  let rest := Point.remainder x y
  if rest == 0.0 then (if y < 0.0 then -0.0 else 0.0)
  else if decide (rest < 0.0) != decide (y < 0.0) then rest + y
  else rest

def floatArithmetic (op : Arithmetic) (x y : Float) : Except Raised Object :=
  match op with
  | .add => .ok (float (x + y))
  | .subtract => .ok (float (x - y))
  | .multiply => .ok (float (x * y))
  | .divide => if y == 0.0 then .error .divisionByZero else .ok (float (x / y))
  | .modulo => if y == 0.0 then .error .divisionByZero else .ok (float (floatRemainder x y))

def float? : Object → Option Float
  | float x => some x
  | v => v.int?.bind fun n => if isWord n then some (Float.ofInt n) else Option.none

def arithmetic (v : Object) (op : Arithmetic) (w : Object) : Except Raised Object :=
  match v.int?, w.int? with
  | some a, some b => intArithmetic op a b
  | _, _ =>
    match op, v, w with
    | .add, str s, str t => .ok (str (s ++ t))
    | .add, list xs, list ys => .ok (list (xs ++ ys))
    | _, _, _ =>
      match v.float?, w.float? with
      | some x, some y => floatArithmetic op x y
      | _, _ => .error .refused

def negated (v : Object) : Except Raised Object :=
  match v, v.int? with
  | _, some n => .ok (int (-n))
  | float x, _ => .ok (float (-x))
  | _, _ => .error .refused

-- Whether a point value is this whole number.
def floatIsInt (x : Float) (n : Int) : Bool :=
  match Point.parts x with
  | .finite negative mantissa exponent =>
    (if negative then -(mantissa : Int) else mantissa) * Nat.pow 2 exponent.toNat ==
      n * Nat.pow 2 (-exponent).toNat
  | _ => false

mutual

def equal : Object → Object → Bool
  | list xs, list ys => equalAll xs ys
  | none, none => true
  | str s, str t => s == t
  | float x, float y => x == y
  | float x, w => w.int?.any (floatIsInt x)
  | v, float y => v.int?.any (floatIsInt y)
  | v, w =>
    match v.int?, w.int? with
    | some a, some b => a == b
    | _, _ => false

def equalAll : List Object → List Object → Bool
  | [], [] => true
  | x :: xs, y :: ys => equal x y && equalAll xs ys
  | _, _ => false

end

def ordered (op : Comparison) (o : Ordering) : Bool :=
  match op with
  | .less => o.isLT
  | .lessEqual => o.isLE
  | .greater => o.isGT
  | .greaterEqual => o.isGE
  | .equal => o.isEq
  | .notEqual => o.isNe

def comparison (v : Object) (op : Comparison) (w : Object) : Except Raised Object :=
  match op with
  | .equal => .ok (bool (equal v w))
  | .notEqual => .ok (bool !equal v w)
  | _ =>
    match v.int?, w.int? with
    | some a, some b => .ok (bool (ordered op (compareOfLessAndEq a b)))
    | _, _ =>
      match v, w with
      | str s, str t => .ok (bool (ordered op (compareOfLessAndEq s t)))
      | _, _ => .error .refused

def binary (v : Object) (op : Operator) (w : Object) : Except Raised Object :=
  match op, v, w with
  | .arithmetic op, _, _ => v.arithmetic op w
  | .comparison op, _, _ => v.comparison op w
  | .bitOr, bool a, bool b => .ok (bool (a || b))
  | .bitAnd, bool a, bool b => .ok (bool (a && b))
  | _, _, _ => .error .refused

-- A sign, if any, and decimal digits; white space around them does not count. Other numerals that
-- `int` reads are left out.
def numeral? (s : String) : Option Int :=
  match Text.trim s.toList with
  | '-' :: rest => (Integer.digits? rest).map fun n : Nat => -(n : Int)
  | '+' :: rest => (Integer.digits? rest).map fun n : Nat => (n : Int)
  | cs => (Integer.digits? cs).map fun n : Nat => (n : Int)

-- What `str` gives, lists left out.
def text? : Object → Option String
  | int n => some (toString n)
  | bool b => some (if b then "True" else "False")
  | str s => some s
  | none => some "None"
  | float x => some (Point.Layout.printable.write x)
  | list _ => Option.none

mutual

-- What the printing helper makes of a value: it looks for truth values, `None` and lists, and
-- leaves the rest to `str`.
def display : Object → String
  | bool b => if b then "YES" else "NO"
  | none => "empty"
  | list items => "[" ++ String.intercalate ", " (displayAll items) ++ "]"
  | int n => toString n
  | str s => s
  | float x => Point.Layout.printable.write x

def displayAll : List Object → List String
  | [] => []
  | v :: vs => display v :: displayAll vs

end

end Object

-- The variables of the module; the first entry of a name counts.
abbrev Env := List (String × Object)

-- A built-in function can be called only as long as no variable has its name.
def Env.Free (env : Env) (names : List String) : Prop := ∀ name ∈ names, env.lookup name = none

instance (env : Env) (names : List String) : Decidable (env.Free names) :=
  inferInstanceAs (Decidable (∀ name ∈ names, env.lookup name = none))

-- The names that the printing helper uses, its own included.
def showNames : List String := [showHelper, "isinstance", "list", "str", "print"]

def builtin (function : String) (arguments : List Object) : Except Raised Object :=
  match arguments with
  | [v] =>
    if function = "bool" then .ok (.bool v.truth)
    else if function = "str" then v.text?.elim (.error .refused) fun s => .ok (.str s)
    else if function = "int" then
      match v, v.int? with
      | _, some n => .ok (.int n)
      | .str s, _ => (Object.numeral? s).elim (.error .refused) fun n => .ok (.int n)
      | _, _ => .error .refused
    else .error .refused
  | [v, .bool false] => if function = showHelper then .ok (.str v.display) else .error .refused
  | _ => .error .refused

def invoke (env : Env) (function : String) (arguments : List Object) : Except Raised Object :=
  if env.Free (function :: if function = showHelper then showNames else []) then
    builtin function arguments
  else .error .refused

mutual

def Expr.eval (env : Env) : Expr → Except Raised Object
  | .name spelling => (env.lookup spelling).elim (.error (.unbound spelling)) .ok
  | .integer n => .ok (.int n.toInt)
  | .float x => .ok (.float x)
  | .boolean b => .ok (.bool b)
  | .null => .ok .none
  | .string s => .ok (.str s)
  | .call function arguments => do invoke env function (← Expr.evalAll env arguments)
  | .list items => do return .list (← Expr.evalAll env items)
  | .binary op left right => do
    let v ← left.eval env
    let w ← right.eval env
    v.binary op w
  | .not operand => do return .bool !(← operand.eval env).truth
  | .negate operand => do (← operand.eval env).negated
  | .grouped inner => inner.eval env
  | .falseAfter evaluated => do
    let _ ← Expr.evalAll env evaluated
    return .bool false
  | .yesNo condition => do return .str (if (← condition.eval env).truth then "YES" else "NO")

def Expr.evalAll (env : Env) : List Expr → Except Raised (List Object)
  | [] => .ok []
  | e :: es => do
    let v ← e.eval env
    let vs ← Expr.evalAll env es
    return v :: vs

end

attribute [simp] Expr.eval Expr.evalAll

-- What a call of the printing helper prints, if the statement is one.
def Expr.printed? : Expr → Option Expr
  | .call function [argument] => if function = showHelper then some argument else none
  | _ => none

-- The variables after a statement, and what it has printed. An augmented assignment changes a
-- list in place, for all variables that hold it; that is not described.
def Stmt.exec (env : Env) : Stmt → Except Raised (Env × List String)
  | .assign name value => do return ((name, ← value.eval env) :: env, [])
  | .augment name op value => do
    let old ← Expr.eval env (.name name)
    let operand ← value.eval env
    match old with
    | .list _ => .error .refused
    | _ => return ((name, ← old.arithmetic op operand) :: env, [])
  | .expression value =>
    match value.printed? with
    | some argument => do
      let v ← argument.eval env
      if env.Free showNames then .ok (env, [v.display]) else .error .refused
    | none => do
      let _ ← value.eval env
      return (env, [])
  | .pass => .ok (env, [])
  | .ret _ | .globals _ | .nonlocals _ | .function .. => .error .refused

def run (env : Env) : List Stmt → Except Raised (Env × List String)
  | [] => .ok (env, [])
  | s :: rest => do
    let (env', first) ← s.exec env
    let (env'', more) ← run env' rest
    return (env'', first ++ more)

end Scriptlet.Target
