import Scriptlet.Point.Numeral
import Scriptlet.Text.Blank
import Scriptlet.Value.Failure

/-!
Casts. Lists, `empty` and unknown values pass through every cast unchanged; text is read as a
number with blanks around it left out.
-/

namespace Scriptlet.Value

def toInteger? : Value → Option Int64
  | integer n => some n
  | point x => (Point.truncate? x).bind Integer.ofInt?
  | text s => Integer.read? (Text.trim s.toList)
  | state b => some (Integer.ofBool b)
  | _ => none

def toPoint? : Value → Option Float
  | integer n => some (Point.ofInteger n)
  | point x => some x
  | text s => (Point.read? (Text.trim s.toList)).filter Float.isFinite
  | state b => some (Point.ofBool b)
  | _ => none

def castTo (target : CastTarget) (v : Value) : Except ValueFailure Value :=
  let checked (result : Option Value) : Except ValueFailure Value :=
    match result with
    | some w => .ok w
    | none => .error (.cast v.shown v.tag target)
  match v, target with
  | list _, _ | empty, _ | unknown, _ => .ok v
  | _, .integer => checked (v.toInteger?.map integer)
  | _, .point => checked (v.toPoint?.map point)
  | _, .text => .ok (text v.shown)
  | _, .state => .ok (state v.truth)

end Scriptlet.Value
