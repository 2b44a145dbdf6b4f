import Scriptlet.Value.Arithmetic

/-!
Values that are not known yet. A value refines another one if it is what the other may turn out to
be: unknown parts stand for anything. Whether two values can still turn out to be equal can be
decided.
-/

namespace Scriptlet.Value

mutual

inductive Refines : Value → Value → Prop where
  | unknown {v} : Refines v .unknown
  | same {v} : Refines v v
  | list {vs us} (items : RefinesAll vs us) : Refines (.list vs) (.list us)

-- Lists of one length, refined element by element.
inductive RefinesAll : List Value → List Value → Prop where
  | nil : RefinesAll [] []
  | cons {v u vs us} (first : Refines v u) (rest : RefinesAll vs us) :
      RefinesAll (v :: vs) (u :: us)

end

variable {u v v' w w' : Value} {vs us vs' us' : List Value} {op : BinaryOp}

theorem RefinesAll.same : ∀ vs : List Value, RefinesAll vs vs
  | [] => .nil
  | _ :: vs => .cons .same (.same vs)

theorem RefinesAll.append (left : RefinesAll vs' vs) (right : RefinesAll us' us) :
    RefinesAll (vs' ++ us') (vs ++ us) := by
  induction vs' generalizing vs with
  | nil => cases left; exact right
  | cons v' vs' ih => cases left with | cons first rest => exact .cons first (ih rest)

theorem Refines.known (refined : v'.Refines v) (known : v.isUnknown = false) :
    v' = v ∨ ∃ vs' vs, v' = .list vs' ∧ v = .list vs ∧ RefinesAll vs' vs := by
  cases refined with
  | unknown => cases known
  | same => exact .inl rfl
  | list items => exact .inr ⟨_, _, rfl, rfl, items⟩

theorem Refines.isUnknown (refined : v'.Refines v) (known : v.isUnknown = false) :
    v'.isUnknown = false := by
  obtain rfl | ⟨_, _, rfl, rfl, -⟩ := refined.known known
  · exact known
  · rfl

theorem Refines.truth (refined : v'.Refines v) (known : v.isUnknown = false) :
    v'.truth = v.truth := by
  obtain rfl | ⟨_, _, rfl, rfl, -⟩ := refined.known known
  · rfl
  · rfl

theorem order?_list_left : order? (list vs) w = none := by
  cases w <;> rfl

theorem order?_list_right : order? v (list us) = none := by
  cases v <;> simp [order?, tag, Tag.isNumeric]

theorem order?_refined (left : v'.Refines v) (right : w'.Refines w)
    (known : v.isUnknown = false) (known' : w.isUnknown = false) :
    order? v' w' = order? v w := by
  obtain rfl | ⟨_, _, rfl, rfl, -⟩ := left.known known
  · obtain rfl | ⟨_, _, rfl, rfl, -⟩ := right.known known'
    · rfl
    · rw [order?_list_right, order?_list_right]
  · rw [order?_list_left, order?_list_left]

mutual

-- Whether some value is equal to what this one may turn out to be: only a point value that is not
-- a number differs from everything.
def equatable : Value → Bool
  | point x => !x.isNaN
  | list items => equatableAll items
  | integer _ | state _ | text _ | empty | unknown => true

def equatableAll : List Value → Bool
  | [] => true
  | v :: vs => v.equatable && equatableAll vs

end

mutual

-- Whether two values may turn out to be equal.
def reconcilable : Value → Value → Bool
  | unknown, w => w.equatable
  | v, unknown => v.equatable
  | list vs, list ws => reconcilableAll vs ws
  | v, w => equal v w

def reconcilableAll : List Value → List Value → Bool
  | [], [] => true
  | v :: vs, w :: ws => reconcilable v w && reconcilableAll vs ws
  | _, _ => false

end

open Float.Model in
theorem isNaN_of_compare {x y : UnpackedFloat} {o : Ordering} (found : x.compare y = some o) :
    x.isNaN = false ∧ y.isNaN = false := by
  cases x with
  | notANumber => cases y <;> cases found
  | infinity | zero | finite =>
    cases y with
    | notANumber => cases found
    | infinity | zero | finite => exact ⟨rfl, rfl⟩

open Float.Model in
theorem compare_self {x : UnpackedFloat} (number : x.isNaN = false) :
    x.compare x = some .eq := by
  cases x with
  | notANumber => cases number
  | infinity sign => cases sign <;> rfl
  | zero sign => rfl
  | finite sign mantissa exponent positive =>
    have same : (Ord.compare exponent exponent).then (Ord.compare mantissa mantissa) = .eq := by
      simp
    cases sign with
    | negative => exact congrArg (fun o => some o.swap) same
    | positive => exact congrArg some same

theorem beq_point_iff {x y : Float} :
    (x == y) = true ↔ x.toModel.unpack.compare y.toModel.unpack = some .eq := by
  change (x.toModel.unpack.compare y.toModel.unpack == some .eq) = true ↔ _
  exact beq_iff_eq

theorem lt_point_iff {x y : Float} :
    x < y ↔ x.toModel.unpack.compare y.toModel.unpack = some .lt := by
  change decide ((x.toModel.unpack.compare y.toModel.unpack == some .lt) = true) = true ↔ _
  rw [decide_eq_true_iff]
  exact beq_iff_eq

theorem orderPoint?_self {x : Float} (number : x.isNaN = false) :
    orderPoint? x x = some .eq := by
  have same : x.toModel.unpack.compare x.toModel.unpack = some .eq := compare_self number
  have notLess : ¬ x < x := by
    rw [lt_point_iff, same]
    simp
  rw [orderPoint?, if_neg notLess, if_neg notLess, if_pos (beq_point_iff.2 same)]

theorem isNaN_of_orderPoint? {x y : Float} (same : orderPoint? x y = some .eq) :
    x.isNaN = false ∧ y.isNaN = false := by
  unfold orderPoint? at same
  split at same
  · cases same
  · split at same
    · cases same
    · split at same
      · rename_i equal
        exact isNaN_of_compare (beq_point_iff.1 equal)
      · cases same

theorem orderInteger_self (n : Int64) : orderInteger n n = .eq := by
  unfold orderInteger compareOfLessAndEq
  rw [if_neg (Int.lt_irrefl n.toInt), if_pos rfl]

theorem orderText_self (s : String) : orderText s s = .eq := by
  unfold orderText compareOfLessAndEq
  rw [if_neg (String.lt_irrefl s), if_pos rfl]

theorem equal_iff : equal v w = true ↔
    (∃ vs ws, v = list vs ∧ w = list ws ∧ equalAll vs ws = true) ∨ (v = empty ∧ w = empty) ∨
      order? v w = some .eq := by
  unfold equal
  split
  · simp [order?_list_left]
  · simp
  · rename_i notLists notEmpty
    rw [beq_iff_eq]
    constructor
    · exact fun same => .inr (.inr same)
    · rintro (⟨vs, ws, rfl, rfl, -⟩ | ⟨rfl, rfl⟩ | same)
      · exact absurd rfl (notLists vs ws rfl)
      · exact absurd rfl (notEmpty rfl)
      · exact same

theorem order?_some {o : Ordering} (found : order? v w = some o) :
    (∃ s t, v = text s ∧ w = text t) ∨ v.tag.isNumeric = true ∧ w.tag.isNumeric = true ∧
      orderNumber? (v.number .integer) (w.number .integer) = some o := by
  unfold order? at found
  split at found
  · exact .inl ⟨_, _, rfl, rfl⟩
  · split at found
    · rename_i numeric
      rw [Bool.and_eq_true] at numeric
      exact .inr ⟨numeric.1, numeric.2, found⟩
    · cases found

theorem isNaN_of_orderNumber? {a b : Number} (same : orderNumber? a b = some .eq) :
    (∀ x, a = .point x → x.isNaN = false) ∧ ∀ y, b = .point y → y.isNaN = false := by
  refine ⟨?_, ?_⟩
  · rintro x rfl
    exact (isNaN_of_orderPoint? same).1
  · rintro y rfl
    cases a with
    | integer n => exact (isNaN_of_orderPoint? same).2
    | point x => exact (isNaN_of_orderPoint? same).2

theorem equatable_of_number (numeric : v.tag.isNumeric = true)
    (number : ∀ x, v.number .integer = .point x → x.isNaN = false) : v.equatable = true := by
  cases v with
  | point x => rw [equatable, number x rfl]; rfl
  | integer n => rfl
  | state b => rfl
  | text s | list vs | empty | unknown => cases numeric

theorem equatable_of_order? (same : order? v w = some .eq) :
    v.equatable = true ∧ w.equatable = true := by
  obtain ⟨s, t, rfl, rfl⟩ | ⟨left, right, same⟩ := order?_some same
  · exact ⟨rfl, rfl⟩
  · obtain ⟨number, number'⟩ := isNaN_of_orderNumber? same
    exact ⟨equatable_of_number left number, equatable_of_number right number'⟩

mutual

theorem equatable_of_equal : ∀ {v w : Value}, equal v w = true →
    v.equatable = true ∧ w.equatable = true := by
  intro v w same
  obtain ⟨vs, ws, rfl, rfl, same⟩ | ⟨rfl, rfl⟩ | same := equal_iff.1 same
  · exact equatableAll_of_equalAll same
  · exact ⟨rfl, rfl⟩
  · exact equatable_of_order? same

theorem equatableAll_of_equalAll : ∀ {vs ws : List Value}, equalAll vs ws = true →
    equatableAll vs = true ∧ equatableAll ws = true
  | [], [], _ => ⟨rfl, rfl⟩
  | v :: vs, w :: ws, same => by
    rw [equalAll, Bool.and_eq_true] at same
    obtain ⟨first, first'⟩ := equatable_of_equal same.1
    obtain ⟨rest, rest'⟩ := equatableAll_of_equalAll same.2
    rw [equatableAll, equatableAll, first, first', rest, rest']
    exact ⟨rfl, rfl⟩

end

mutual

theorem Refines.equatable : ∀ {v' v : Value}, v'.Refines v → v'.equatable = true →
    v.equatable = true
  | _, _, .unknown, _ => rfl
  | _, _, .same, number => number
  | _, _, .list items, number => items.equatableAll number

theorem RefinesAll.equatableAll : ∀ {vs' vs : List Value}, RefinesAll vs' vs →
    Value.equatableAll vs' = true → Value.equatableAll vs = true
  | _, _, .nil, number => number
  | _, _, .cons first rest, number => by
    rw [Value.equatableAll, Bool.and_eq_true] at number ⊢
    exact ⟨first.equatable number.1, rest.equatableAll number.2⟩

end

theorem Refines.of_list (refined : v'.Refines (.list vs)) :
    ∃ vs', v' = .list vs' ∧ RefinesAll vs' vs := by
  cases refined with
  | same => exact ⟨vs, rfl, .same vs⟩
  | list items => exact ⟨_, rfl, items⟩

theorem equal_of_refined (left : v'.Refines v) (right : w'.Refines w)
    (known : v.isUnknown = false) (known' : w.isUnknown = false)
    (single : ∀ vs ws, v = list vs → w ≠ list ws) (same : equal v' w' = true) :
    equal v w = true := by
  obtain rfl | ⟨vs', vs, rfl, rfl, -⟩ := left.known known
  · obtain rfl | ⟨ws', ws, rfl, rfl, -⟩ := right.known known'
    · exact same
    · obtain ⟨vs, _, rfl, -, -⟩ | ⟨-, is⟩ | same := equal_iff.1 same
      · exact absurd rfl (single vs ws rfl)
      · cases is
      · simp [order?_list_right] at same
  · obtain ⟨_, ws', -, rfl, -⟩ | ⟨is, -⟩ | same := equal_iff.1 same
    · obtain rfl | ⟨_, ws, -, rfl, -⟩ := right.known known'
      · exact absurd rfl (single vs ws' rfl)
      · exact absurd rfl (single vs ws rfl)
    · cases is
    · simp [order?_list_left] at same

mutual

theorem reconcilable_of_equal : ∀ {v w v' w' : Value}, v'.Refines v → w'.Refines w →
    equal v' w' = true → reconcilable v w = true := by
  intro v w v' w' left right same
  unfold reconcilable
  split
  · exact right.equatable (equatable_of_equal same).2
  · exact left.equatable (equatable_of_equal same).1
  · obtain ⟨vs', rfl, items⟩ := left.of_list
    obtain ⟨ws', rfl, items'⟩ := right.of_list
    rw [equal] at same
    exact reconcilableAll_of_equalAll items items' same
  · rename_i known known' single
    refine equal_of_refined left right ?_ ?_ (fun vs ws is is' => single vs ws is is') same
    · cases v <;> simp_all [isUnknown]
    · cases w <;> simp_all [isUnknown]

theorem reconcilableAll_of_equalAll : ∀ {vs ws vs' ws' : List Value}, RefinesAll vs' vs →
    RefinesAll ws' ws → equalAll vs' ws' = true → reconcilableAll vs ws = true
  | _, _, _, _, .nil, .nil, _ => rfl
  | _, _, _, _, .cons first rest, .cons first' rest', same => by
    rw [equalAll, Bool.and_eq_true] at same
    rw [reconcilableAll, reconcilable_of_equal first first' same.1,
      reconcilableAll_of_equalAll rest rest' same.2]
    rfl

end

mutual

-- The value with `empty` in place of whatever is unknown.
def filled : Value → Value
  | unknown => empty
  | list items => list (filledAll items)
  | v => v

def filledAll : List Value → List Value
  | [] => []
  | v :: vs => v.filled :: filledAll vs

end

mutual

theorem filled_refines : ∀ v : Value, v.filled.Refines v
  | .unknown => .unknown
  | .list items => .list (filledAll_refines items)
  | .integer _ | .point _ | .state _ | .text _ | .empty => .same

theorem filledAll_refines : ∀ vs : List Value, RefinesAll (filledAll vs) vs
  | [] => .nil
  | v :: vs => .cons (filled_refines v) (filledAll_refines vs)

end

theorem equal_of_order? (same : order? v w = some .eq) : equal v w = true :=
  equal_iff.2 (.inr (.inr same))

mutual

theorem filled_equal : ∀ {v : Value}, v.equatable = true → equal v.filled v.filled = true
  | .unknown, _ | .empty, _ => by simp [filled, equal]
  | .list items, number => by
    rw [filled, equal]
    exact filledAll_equal number
  | .integer n, _ => equal_of_order? (congrArg some (orderInteger_self n))
  | .state b, _ => equal_of_order? (congrArg some (orderInteger_self (Integer.ofBool b)))
  | .text s, _ => equal_of_order? (congrArg some (orderText_self s))
  | .point x, number => by
    rw [equatable, Bool.not_eq_true'] at number
    exact equal_of_order? (orderPoint?_self number)

theorem filledAll_equal : ∀ {vs : List Value}, equatableAll vs = true →
    equalAll (filledAll vs) (filledAll vs) = true
  | [], _ => by simp [filledAll, equalAll]
  | v :: vs, number => by
    rw [equatableAll, Bool.and_eq_true] at number
    rw [filledAll, equalAll, filled_equal number.1, filledAll_equal number.2]
    rfl

end

mutual

theorem equal_of_reconcilable : ∀ {v w : Value}, reconcilable v w = true →
    ∃ v' w', v'.Refines v ∧ w'.Refines w ∧ equal v' w' = true := by
  intro v w agree
  unfold reconcilable at agree
  split at agree
  · exact ⟨_, _, .unknown, filled_refines w, filled_equal agree⟩
  · exact ⟨_, _, filled_refines v, .unknown, filled_equal agree⟩
  · obtain ⟨vs', ws', left, right, same⟩ := equalAll_of_reconcilableAll agree
    exact ⟨_, _, .list left, .list right, by rw [equal, same]⟩
  · exact ⟨v, w, .same, .same, agree⟩

theorem equalAll_of_reconcilableAll : ∀ {vs ws : List Value}, reconcilableAll vs ws = true →
    ∃ vs' ws', RefinesAll vs' vs ∧ RefinesAll ws' ws ∧ equalAll vs' ws' = true
  | [], [], _ => ⟨[], [], .nil, .nil, by rw [equalAll]⟩
  | v :: vs, w :: ws, agree => by
    rw [reconcilableAll, Bool.and_eq_true] at agree
    obtain ⟨v', w', first, first', same⟩ := equal_of_reconcilable agree.1
    obtain ⟨vs', ws', rest, rest', same'⟩ := equalAll_of_reconcilableAll agree.2
    exact ⟨_, _, .cons first rest, .cons first' rest', by rw [equalAll, same, same']; rfl⟩

end

end Scriptlet.Value
