import Scriptlet.Proofs.Point.Finite
import Scriptlet.Value.Arithmetic
import Scriptlet.Value.Cast

/-!
Values whose points are all finite. Every operator and every cast leads from such values to such
values: arithmetic gives a failure in the place of a point that is not finite, a text that reads as
no finite point cannot be cast, and all other points are converted from integers and states, negated
or taken over.
-/

namespace Scriptlet.Value

mutual

-- The points in a value, at any depth inside lists.
def points : Value → List Float
  | point x => [x]
  | list items => pointsAll items
  | integer _ | state _ | text _ | empty | unknown => []

def pointsAll : List Value → List Float
  | [] => []
  | v :: vs => v.points ++ pointsAll vs

end

def Finite (v : Value) : Prop := ∀ x ∈ v.points, x.isFinite = true

variable {v w u : Value} {vs ws : List Value} {x y z : Float}

theorem pointsAll_eq : pointsAll vs = vs.flatMap points := by
  induction vs with
  | nil => rfl
  | cons v vs ih => rw [pointsAll, ih, List.flatMap_cons]

theorem finite_of_none (none : v.points = []) : v.Finite := by
  intro x inside
  rw [none] at inside
  cases inside

theorem finite_point : (point x).Finite ↔ x.isFinite = true := List.forall_mem_singleton

theorem finite_list : (list vs).Finite ↔ ∀ v ∈ vs, v.Finite := by
  unfold Finite
  rw [points, pointsAll_eq]
  exact List.forall_mem_flatMap

theorem plain_finite (none : w.points = [])
    (result : (.ok w : Except ValueFailure Value) = .ok u) : u.Finite := by
  cases result
  exact finite_of_none none

theorem map_finite {α : Type} {make : α → Value} {outcome : Except ValueFailure α}
    (each : ∀ r, outcome = .ok r → (make r).Finite) (result : outcome.map make = .ok u) :
    u.Finite := by
  cases outcome with
  | error failure => cases result
  | ok r =>
    cases result
    exact each r rfl

theorem pointArithmetic_isFinite {op : Arithmetic} (result : pointArithmetic op x y = .ok z) :
    z.isFinite = true := by
  have checked : ∀ r, (if r.isFinite then .ok r else .error (.notFinite op x y) :
      Except ValueFailure Float) = .ok z → z.isFinite = true := by
    intro r settled
    split at settled
    · cases settled
      assumption
    · cases settled
  unfold pointArithmetic at result
  cases op with
  | add | subtract | multiply => exact checked _ result
  | divide | modulo =>
    dsimp only at result
    split at result
    · cases result
    · exact checked _ result

theorem numericArithmetic_finite {op : Arithmetic} (result : numericArithmetic op v w = .ok u) :
    u.Finite := by
  unfold numericArithmetic at result
  dsimp only at result
  split at result
  · exact map_finite (fun _ _ => finite_of_none rfl) result
  · exact map_finite (fun _ found => finite_point.2 (pointArithmetic_isFinite found)) result

theorem arithmetic_finite {op : Arithmetic} (left : v.Finite) (right : w.Finite)
    (result : arithmetic op v w = .ok u) : u.Finite := by
  unfold arithmetic at result
  split at result
  · split at result
    · cases result
      exact finite_list.2 (List.forall_mem_append.2 ⟨finite_list.1 left, finite_list.1 right⟩)
    · cases result
  · split at result <;> cases result
  · split at result <;> cases result
  · split at result
    · exact plain_finite rfl result
    · cases result
  · split at result
    · exact plain_finite rfl result
    · cases result
  · exact numericArithmetic_finite result

theorem applyBinary_finite {op : BinaryOp} (left : v.Finite) (right : w.Finite)
    (result : applyBinary op v w = .ok u) : u.Finite := by
  unfold applyBinary at result
  split at result
  · exact plain_finite rfl result
  · split at result
    · exact plain_finite rfl result
    · exact plain_finite rfl result
    · exact plain_finite rfl result
    · exact arithmetic_finite left right result

theorem negate_finite (operand : v.Finite) (result : negate v = .ok u) : u.Finite := by
  unfold negate at result
  split at result
  · exact plain_finite rfl result
  · split at result
    · exact plain_finite rfl result
    · cases result
  · cases result
    exact finite_point.2 (Point.isFinite_neg (finite_point.1 operand))
  · cases result

theorem applyUnary_finite {op : UnaryOp} (operand : v.Finite) (result : applyUnary op v = .ok u) :
    u.Finite := by
  unfold applyUnary at result
  split at result
  · exact plain_finite rfl result
  · cases op with
    | not => exact plain_finite rfl result
    | negate => exact negate_finite operand result

theorem toPoint?_isFinite (finite : v.Finite) (found : v.toPoint? = some x) :
    x.isFinite = true := by
  cases v with
  | integer n =>
    cases found
    exact Point.isFinite_ofInteger n
  | point y =>
    cases found
    exact finite_point.1 finite
  | text s => exact (Option.filter_eq_some_iff.1 found).2
  | state b =>
    cases found
    exact Point.isFinite_ofBool b
  | list items | empty | unknown => cases found

theorem castTo_finite {target : CastTarget} (finite : v.Finite) (result : castTo target v = .ok u) :
    u.Finite := by
  unfold castTo at result
  dsimp only at result
  split at result
  · cases result
    exact finite
  · cases result
    exact finite
  · cases result
    exact finite
  · split at result
    · rename_i converted
      cases result
      obtain ⟨n, -, rfl⟩ := Option.map_eq_some_iff.1 converted
      exact finite_of_none rfl
    · cases result
  · split at result
    · rename_i converted
      cases result
      obtain ⟨x, read, rfl⟩ := Option.map_eq_some_iff.1 converted
      exact finite_point.2 (toPoint?_isFinite finite read)
    · cases result
  · exact plain_finite rfl result
  · exact plain_finite rfl result

end Scriptlet.Value
