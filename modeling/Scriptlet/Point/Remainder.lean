import Scriptlet.Point.Parts

/-!
The exact remainder of two point values. It has the sign of the dividend and is smaller than the
divisor; it is always representable, so nothing is rounded.
-/

namespace Scriptlet.Point

def notANumber : Float := 0.0 / 0.0

def remainder (x y : Float) : Float :=
  match parts x, parts y with
  | .finite negative m p, .finite _ n q =>
    if n = 0 then notANumber
    else
      let scale := min p q
      let rest := m * Nat.pow 2 (p - scale).toNat % (n * Nat.pow 2 (q - scale).toNat)
      ofParts negative rest scale
  | .finite .., .infinite _ => x
  | _, _ => notANumber

-- The remainder moved to the side of the divisor, so that its sign is the divisor's.
def flooredRemainder (x y : Float) : Float :=
  let rest := remainder x y
  if rest != 0.0 && (decide (rest < 0.0) != decide (y < 0.0)) then rest + y else rest

end Scriptlet.Point
