import Scriptlet.Proofs.Target.Semantics
import Scriptlet.Proofs.Target.Spelling

/-!
Values and the Python objects that stand for them. Every operator of the language has the same
outcome on values as its lowered form has on their images.
-/

namespace Scriptlet

open Target

mutual

-- Points have no image here, and unknown values have none at all.
inductive Image : Value → Object → Prop where
  | integer (n : Int64) : Image (.integer n) (.int n.toInt)
  | state (b : Bool) : Image (.state b) (.bool b)
  | text (s : String) : Image (.text s) (.str s)
  | empty : Image .empty .none
  | list {vs ps} (items : ImageAll vs ps) : Image (.list vs) (.list ps)

inductive ImageAll : List Value → List Object → Prop where
  | nil : ImageAll [] []
  | cons {v p vs ps} (first : Image v p) (rest : ImageAll vs ps) : ImageAll (v :: vs) (p :: ps)

end

mutual

-- Whether a value is a point or has one inside.
def Value.hasPoint : Value → Bool
  | .point _ => true
  | .list items => Value.anyPoint items
  | .integer _ | .state _ | .text _ | .empty | .unknown => false

def Value.anyPoint : List Value → Bool
  | [] => false
  | v :: vs => v.hasPoint || Value.anyPoint vs

end

theorem ImageAll.append {vs ws : List Value} {ps qs : List Object} (left : ImageAll vs ps)
    (right : ImageAll ws qs) : ImageAll (vs ++ ws) (ps ++ qs) := by
  induction vs generalizing ps with
  | nil => cases left; exact right
  | cons v vs ih => cases left with | cons first rest => exact .cons first (ih rest)

mutual

theorem Image.display : ∀ {v p}, Image v p → p.display = v.shown
  | _, _, .integer _ => rfl
  | _, _, .state _ => rfl
  | _, _, .text _ => rfl
  | _, _, .empty => rfl
  | _, _, .list items => by rw [Object.display, Value.shown, items.displayAll]

theorem ImageAll.displayAll : ∀ {vs ps}, ImageAll vs ps →
    Object.displayAll ps = Value.shownAll vs
  | _, _, .nil => rfl
  | _, _, .cons first rest => by
    rw [Object.displayAll, Value.shownAll, first.display, rest.displayAll]

end

theorem intOrder_eq {a b : Int} : (compareOfLessAndEq a b == .eq) = (a == b) := by
  unfold compareOfLessAndEq
  split
  · simp; omega
  · split <;> simp [*]

theorem textOrder_eq {s t : String} : (compareOfLessAndEq s t == .eq) = (s == t) := by
  unfold compareOfLessAndEq
  split
  · rename_i less
    have differ : s ≠ t := fun same => String.lt_irrefl t (same ▸ less)
    simp [differ]
  · split <;> simp [*]

variable {v w u : Value} {p q : Object}

namespace Image

theorem known (image : Image v p) : v.isUnknown = false := by
  cases image <;> rfl

theorem toInt_ofBool (b : Bool) : (Integer.ofBool b).toInt = if b then 1 else 0 := by
  cases b <;> rfl

theorem number (image : Image v p) (numeric : v.tag.isNumeric = true) :
    ∃ m : Int64, v.number .integer = .integer m ∧ p.int? = some m.toInt := by
  cases image with
  | integer n => exact ⟨n, rfl, rfl⟩
  | state b => exact ⟨Integer.ofBool b, rfl, by rw [toInt_ofBool]; rfl⟩
  | text | empty | list => cases numeric

theorem toInt_ne_zero (n : Int64) : (n.toInt != 0) = (n != 0) := by
  rw [Bool.eq_iff_iff, bne_iff_ne, bne_iff_ne, ← Int64.toInt_zero, Ne, Ne, Int64.toInt_inj]

theorem truth (image : Image v p) (plain : v.tag ≠ .list) : p.truth = v.truth := by
  cases image with
  | integer n => exact toInt_ne_zero n
  | state | text | empty => rfl
  | list => exact absurd rfl plain

theorem order_numeric (left : Image v p) (right : Image w q) (first : v.tag.isNumeric = true)
    (second : w.tag.isNumeric = true) :
    ∃ a b, p.int? = some a ∧ q.int? = some b ∧
      Value.order? v w = some (compareOfLessAndEq a b) := by
  obtain ⟨m, number, whole⟩ := left.number first
  obtain ⟨k, number', whole'⟩ := right.number second
  refine ⟨m.toInt, k.toInt, whole, whole', ?_⟩
  have numeric : Value.order? v w =
      if v.tag.isNumeric && w.tag.isNumeric then
        Value.orderNumber? (v.number .integer) (w.number .integer)
      else none := by
    cases left with
    | text => cases first
    | integer | state | empty | list => rfl
  rw [numeric, first, second, number, number']
  rfl

theorem order_text (s t : String) :
    Value.order? (.text s) (.text t) = some (compareOfLessAndEq s t) := rfl

theorem order_none (mixed : neverOrdered (some v.tag) (some w.tag) = true) :
    Value.order? v w = none := by
  cases v <;> cases w <;> first | rfl | cases mixed

theorem ordered_of_images (left : Image v p) (right : Image w q)
    (same : neverOrdered (some v.tag) (some w.tag) = false) :
    (v.tag.isNumeric = true ∧ w.tag.isNumeric = true) ∨ ∃ s t, v = .text s ∧ w = .text t := by
  cases left <;> cases right <;>
    first | exact .inl ⟨rfl, rfl⟩ | exact .inr ⟨_, _, rfl, rfl⟩ | cases same

end Image

mutual

theorem Image.equal : ∀ {v p w q}, Image v p → Image w q → Value.equal v w = p.equal q
  | _, _, _, _, .integer _, .integer _ => intOrder_eq
  | _, _, _, _, .integer _, .state b => by cases b <;> exact intOrder_eq
  | _, _, _, _, .state b, .integer _ => by cases b <;> exact intOrder_eq
  | _, _, _, _, .state b, .state c => by cases b <;> cases c <;> rfl
  | _, _, _, _, .text _, .text _ => textOrder_eq
  | _, _, _, _, .empty, .empty => rfl
  | _, _, _, _, .list vs, .list ws => by rw [Value.equal, Object.equal, vs.equalAll ws]
  | _, _, _, _, .integer _, .text _ | _, _, _, _, .integer _, .empty
  | _, _, _, _, .integer _, .list _ | _, _, _, _, .state _, .text _
  | _, _, _, _, .state _, .empty | _, _, _, _, .state _, .list _
  | _, _, _, _, .text _, .integer _ | _, _, _, _, .text _, .state _
  | _, _, _, _, .text _, .empty | _, _, _, _, .text _, .list _
  | _, _, _, _, .empty, .integer _ | _, _, _, _, .empty, .state _
  | _, _, _, _, .empty, .text _ | _, _, _, _, .empty, .list _
  | _, _, _, _, .list _, .integer _ | _, _, _, _, .list _, .state _
  | _, _, _, _, .list _, .text _ | _, _, _, _, .list _, .empty => rfl

theorem ImageAll.equalAll : ∀ {vs ps ws qs}, ImageAll vs ps → ImageAll ws qs →
    Value.equalAll vs ws = Object.equalAll ps qs
  | _, _, _, _, .nil, .nil => rfl
  | _, _, _, _, .nil, .cons _ _ => rfl
  | _, _, _, _, .cons _ _, .nil => rfl
  | _, _, _, _, .cons v vs, .cons w ws => by
    rw [Value.equalAll, Object.equalAll, v.equal w, vs.equalAll ws]

end

namespace Image

theorem holds_ordering {op : Comparison} (ordering : op.isOrdering = true) :
    Value.holds op v w = (Value.order? v w).any (Object.ordered op) := by
  have same : Value.accepts op = Object.ordered op := by
    funext o
    cases op <;> cases o <;> rfl
  rw [← same]
  cases op with
  | equal | notEqual => cases ordering
  | less | lessEqual | greater | greaterEqual => rfl

theorem comparison_int {op : Comparison} {a b : Int} (ordering : op.isOrdering = true)
    (left : p.int? = some a) (right : q.int? = some b) :
    p.comparison op q = .ok (.bool (Object.ordered op (compareOfLessAndEq a b))) := by
  cases op with
  | equal | notEqual => cases ordering
  | less | lessEqual | greater | greaterEqual =>
    unfold Object.comparison
    rw [left, right]

theorem comparison_text {op : Comparison} {s t : String} (ordering : op.isOrdering = true) :
    (Object.str s).comparison op (.str t) =
      .ok (.bool (Object.ordered op (compareOfLessAndEq s t))) := by
  cases op with
  | equal | notEqual => cases ordering
  | less | lessEqual | greater | greaterEqual => rfl

theorem comparison {op : Comparison} (left : Image v p) (right : Image w q)
    (described : (op.isOrdering && neverOrdered (some v.tag) (some w.tag)) = false) :
    p.comparison op q = .ok (.bool (Value.holds op v w)) := by
  by_cases ordering : op.isOrdering = true
  · rw [ordering, Bool.true_and] at described
    rw [holds_ordering ordering]
    rcases ordered_of_images left right described with ⟨first, second⟩ | ⟨s, t, rfl, rfl⟩
    · obtain ⟨a, b, whole, whole', order⟩ := order_numeric left right first second
      rw [comparison_int ordering whole whole', order, Option.any_some]
    · cases left
      cases right
      rw [comparison_text ordering, order_text, Option.any_some]
  · cases op with
    | equal | notEqual =>
      rw [Value.holds, left.equal right]
      rfl
    | less | lessEqual | greater | greaterEqual => exact absurd rfl ordering

end Image

end Scriptlet
