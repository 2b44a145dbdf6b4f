import Scriptlet.Point.Remainder
import Scriptlet.Value.Comparison

/-!
The operators on values. An unknown operand makes the result unknown, and no operator is lazy:
both operands are values already.
-/

namespace Scriptlet.Value

def integerArithmetic (op : Arithmetic) (a b : Int64) : Except ValueFailure Int64 :=
  let checked (result : Option Int64) : Except ValueFailure Int64 :=
    match result with
    | some n => .ok n
    | none => .error (.integerOverflow op a b)
  match op with
  | .add => checked (Integer.add? a b)
  | .subtract => checked (Integer.sub? a b)
  | .multiply => checked (Integer.mul? a b)
  | .divide => if b = 0 then .error .divisionByZero else checked (Integer.div? a b)
  | .modulo => if b = 0 then .error .divisionByZero else checked (Integer.mod? a b)

def pointArithmetic (op : Arithmetic) (x y : Float) : Except ValueFailure Float :=
  let checked (result : Float) : Except ValueFailure Float :=
    if result.isFinite then .ok result else .error (.notFinite op x y)
  match op with
  | .add => checked (x + y)
  | .subtract => checked (x - y)
  | .multiply => checked (x * y)
  | .divide => if y == 0.0 then .error .divisionByZero else checked (x / y)
  | .modulo => if y == 0.0 then .error .divisionByZero else checked (Point.flooredRemainder x y)

-- Points win over integers, and a quotient is always a point.
def arithmeticMode (op : Arithmetic) (v w : Value) : Mode :=
  if op = .divide ∨ v.tag = .point ∨ w.tag = .point then .point else .integer

def numericArithmetic (op : Arithmetic) (v w : Value) : Except ValueFailure Value :=
  let mode := arithmeticMode op v w
  match mode, v.number mode, w.number mode with
  | .integer, .integer a, .integer b => (integerArithmetic op a b).map integer
  | _, a, b => (pointArithmetic op a.toPoint b.toPoint).map point

-- Arithmetic on two values that are both known. Only `+` is at home on lists and texts.
def arithmetic (op : Arithmetic) (v w : Value) : Except ValueFailure Value :=
  match v, w with
  | list vs, list ws =>
    if op = .add then .ok (list (vs ++ ws)) else .error (.unsupportedOperator op.symbol .list)
  | list _, _ | _, list _ =>
    if op = .add then .error .listConcatenation else .error (.unsupportedOperator op.symbol .list)
  | text _, _ | _, text _ =>
    if op = .add then .ok (text (v.shown ++ w.shown)) else .error (.typeMismatch op.symbol .text)
  | _, _ => numericArithmetic op v w

def applyBinary (op : BinaryOp) (v w : Value) : Except ValueFailure Value :=
  if v.isUnknown || w.isUnknown then .ok unknown
  else
    match op with
    | .logical .or => .ok (state (v.truth || w.truth))
    | .logical .and => .ok (state (v.truth && w.truth))
    | .comparison op => .ok (state (holds op v w))
    | .arithmetic op => arithmetic op v w

def negate (v : Value) : Except ValueFailure Value :=
  match v with
  | state b => .ok (integer (-Integer.ofBool b))
  | integer n =>
    match Integer.neg? n with
    | some m => .ok (integer m)
    | none => .error (.negationOverflow n)
  | point x => .ok (point (-x))
  | other => .error (.typeMismatch UnaryOp.negate.symbol other.tag)

def applyUnary (op : UnaryOp) (v : Value) : Except ValueFailure Value :=
  if v.isUnknown then .ok unknown
  else
    match op with
    | .not => .ok (state !v.truth)
    | .negate => negate v

end Scriptlet.Value
