import Scriptlet.Proofs.Value.Refinement

/-!
Comparisons obey the laws of an order. Among values without points and unknown parts, equality is
an equivalence: two values are equal if they are the same once states count as integers. Texts are
ordered among each other, and so are integers and states; no other pair has an order.
-/

namespace Scriptlet.Value

variable {u v w : Value} {vs ws : List Value} {a b : Int64} {o : Ordering}

mutual

-- Neither a point nor unknown, at any depth.
def isExact : Value → Bool
  | point _ | unknown => false
  | list items => areExact items
  | integer _ | state _ | text _ | empty => true

def areExact : List Value → Bool
  | [] => true
  | v :: vs => v.isExact && areExact vs

end

-- The integer that an integer or a state counts as.
def count? : Value → Option Int64
  | integer n => some n
  | state b => some (if b then 1 else 0)
  | point _ | text _ | list _ | empty | unknown => none

mutual

-- The value with integers in place of states, at every depth.
def canonical : Value → Value
  | state b => integer (if b then 1 else 0)
  | list items => list (canonicalAll items)
  | v => v

def canonicalAll : List Value → List Value
  | [] => []
  | v :: vs => v.canonical :: canonicalAll vs

end

instance : Std.TransCmp orderText := inferInstanceAs (Std.TransOrd String)

instance : Std.LawfulEqCmp orderText := inferInstanceAs (Std.LawfulEqOrd String)

instance : Std.TransCmp orderInteger where
  eq_swap {a b} := Std.OrientedOrd.eq_swap (a := a.toInt) (b := b.toInt)
  isLE_trans {a b c} := Std.TransOrd.isLE_trans (a := a.toInt) (b := b.toInt) (c := c.toInt)

instance : Std.LawfulEqCmp orderInteger where
  compare_self := orderInteger_self _
  eq_of_compare same := Int64.toInt_inj.1 (Std.LawfulEqOrd.eq_of_compare (α := Int) same)

-- How two values stand to each other that can be ordered.
inductive Ordered : Value → Value → Ordering → Prop where
  | texts {s t : String} {o : Ordering} (order : orderText s t = o) : Ordered (text s) (text t) o
  | counts {v w : Value} {a b : Int64} {o : Ordering} (left : v.count? = some a)
      (right : w.count? = some b) (order : orderInteger a b = o) : Ordered v w o

theorem Ordered.swap (ordered : Ordered v w o) : Ordered w v o.swap := by
  cases ordered with
  | texts order => exact .texts (order ▸ Std.OrientedCmp.eq_swap)
  | counts left right order => exact .counts right left (order ▸ Std.OrientedCmp.eq_swap)

theorem Ordered.lt_trans (first : Ordered u v .lt) (second : Ordered v w .lt) :
    Ordered u w .lt := by
  cases first with
  | texts order =>
    cases second with
    | texts order' => exact .texts (Std.TransCmp.lt_trans order order')
    | counts left right order' => cases left
  | counts left right order =>
    cases second with
    | texts order' => cases right
    | counts left' right' order' =>
      cases right.symm.trans left'
      exact .counts left right' (Std.TransCmp.lt_trans order order')

theorem order?_counts (left : v.count? = some a) (right : w.count? = some b) :
    order? v w = some (orderInteger a b) := by
  cases v with
  | integer | state =>
    cases w with
    | integer | state => cases left; cases right; rfl
    | point | text | list | empty | unknown => cases right
  | point | text | list | empty | unknown => cases left

theorem count?_of_numeric (exact : v.isExact = true) (numeric : v.tag.isNumeric = true) :
    ∃ a, v.count? = some a := by
  cases v with
  | integer | state => exact ⟨_, rfl⟩
  | point => cases exact
  | text | list | empty | unknown => cases numeric

theorem order?_iff (left : v.isExact = true) (right : w.isExact = true) :
    order? v w = some o ↔ Ordered v w o := by
  constructor
  · intro found
    obtain ⟨s, t, rfl, rfl⟩ | ⟨numeric, numeric', -⟩ := order?_some found
    · exact .texts (Option.some.inj found)
    · obtain ⟨a, count⟩ := count?_of_numeric left numeric
      obtain ⟨b, count'⟩ := count?_of_numeric right numeric'
      rw [order?_counts count count'] at found
      exact .counts count count' (Option.some.inj found)
  · intro ordered
    cases ordered with
    | texts order => exact congrArg some order
    | counts count count' order => rw [order?_counts count count', order]

-- Two texts, or two values that are integers or states.
def Comparable (v w : Value) : Prop :=
  v.tag = .text ∧ w.tag = .text ∨
    (v.tag = .integer ∨ v.tag = .state) ∧ (w.tag = .integer ∨ w.tag = .state)

theorem comparable_iff : Comparable v w ↔ ∃ o, Ordered v w o := by
  have counted : ∀ {v : Value}, (v.tag = .integer ∨ v.tag = .state) ↔ ∃ a, v.count? = some a := by
    intro v
    cases v <;> simp [tag, count?]
  have worded : ∀ {v : Value}, v.tag = .text ↔ ∃ s, v = text s := by
    intro v
    cases v <;> simp [tag]
  unfold Comparable
  rw [counted, counted, worded, worded]
  constructor
  · rintro (⟨⟨s, rfl⟩, t, rfl⟩ | ⟨⟨a, left⟩, b, right⟩)
    · exact ⟨_, .texts rfl⟩
    · exact ⟨_, .counts left right rfl⟩
  · rintro ⟨o, ordered⟩
    cases ordered with
    | texts => exact .inl ⟨⟨_, rfl⟩, _, rfl⟩
    | counts left right => exact .inr ⟨⟨_, left⟩, _, right⟩

theorem canonical_count? : v.canonical = integer a ↔ v.count? = some a := by
  cases v <;> simp [canonical, count?]

theorem Ordered.canonical_eq (same : Ordered v w .eq) : v.canonical = w.canonical := by
  cases same with
  | texts order => rw [Std.LawfulEqCmp.eq_of_compare order]
  | counts left right order =>
    rw [canonical_count?.2 left, canonical_count?.2 right, Std.LawfulEqCmp.eq_of_compare order]

mutual

theorem canonical_eq_of_equal : ∀ {v w : Value}, v.isExact = true → w.isExact = true →
    equal v w = true → v.canonical = w.canonical := by
  intro v w left right same
  obtain ⟨vs, ws, rfl, rfl, same⟩ | ⟨rfl, rfl⟩ | same := equal_iff.1 same
  · exact congrArg list (canonicalAll_eq_of_equalAll left right same)
  · rfl
  · exact ((order?_iff left right).1 same).canonical_eq

theorem canonicalAll_eq_of_equalAll : ∀ {vs ws : List Value}, areExact vs = true →
    areExact ws = true → equalAll vs ws = true → canonicalAll vs = canonicalAll ws
  | [], [], _, _, _ => rfl
  | v :: vs, w :: ws, left, right, same => by
    rw [areExact, Bool.and_eq_true] at left right
    rw [equalAll, Bool.and_eq_true] at same
    rw [canonicalAll, canonicalAll, canonical_eq_of_equal left.1 right.1 same.1,
      canonicalAll_eq_of_equalAll left.2 right.2 same.2]

end

theorem equal_of_count? (left : v.count? = some a) (right : w.count? = some a) :
    equal v w = true := by
  refine equal_of_order? ?_
  rw [order?_counts left right, orderInteger_self]

mutual

theorem equal_of_canonical_eq : ∀ {v w : Value}, v.isExact = true → v.canonical = w.canonical →
    equal v w = true := by
  intro v w exact same
  cases v with
  | integer n => exact equal_of_count? rfl (canonical_count?.1 same.symm)
  | state b => exact equal_of_count? rfl (canonical_count?.1 same.symm)
  | text s =>
    cases w with
    | text t => cases same; exact equal_of_order? (congrArg some (orderText_self s))
    | integer | point | state | list | empty | unknown => cases same
  | list vs =>
    cases w with
    | list ws => rw [equal, equalAll_of_canonicalAll_eq exact (list.inj same)]
    | integer | point | state | text | empty | unknown => cases same
  | empty =>
    cases w with
    | empty => rw [equal]
    | integer | point | state | text | list | unknown => cases same
  | point | unknown => cases exact

theorem equalAll_of_canonicalAll_eq : ∀ {vs ws : List Value}, areExact vs = true →
    canonicalAll vs = canonicalAll ws → equalAll vs ws = true
  | [], [], _, _ => by rw [equalAll]
  | v :: vs, w :: ws, exact, same => by
    rw [areExact, Bool.and_eq_true] at exact
    obtain ⟨first, rest⟩ := List.cons.inj same
    rw [equalAll, equal_of_canonical_eq exact.1 first, equalAll_of_canonicalAll_eq exact.2 rest]
    rfl

end

-- Equality is sameness of canonical forms, so it has all the laws of sameness.
theorem equal_iff_canonical (left : v.isExact = true) (right : w.isExact = true) :
    equal v w = true ↔ v.canonical = w.canonical :=
  ⟨canonical_eq_of_equal left right, equal_of_canonical_eq left⟩

-- The comparison comes out as YES.
def Yes (op : Comparison) (v w : Value) : Prop := compare (.comparison op) v w = .ok (state true)

def No (op : Comparison) (v w : Value) : Prop := compare (.comparison op) v w = .ok (state false)

theorem known_of_exact (exact : v.isExact = true) : v.isUnknown = false := by
  cases v with
  | unknown => cases exact
  | integer | point | state | text | list | empty => rfl

theorem compare_exact {op : Comparison} (left : v.isExact = true) (right : w.isExact = true) :
    compare (.comparison op) v w = .ok (state (holds op v w)) := by
  simp [compare, known_of_exact left, known_of_exact right]

theorem yes_iff {op : Comparison} (left : v.isExact = true) (right : w.isExact = true) :
    Yes op v w ↔ holds op v w = true := by
  simp [Yes, compare_exact left right]

theorem no_iff {op : Comparison} (left : v.isExact = true) (right : w.isExact = true) :
    No op v w ↔ holds op v w = false := by
  simp [No, compare_exact left right]

theorem yes_equal_iff (left : v.isExact = true) (right : w.isExact = true) :
    Yes .equal v w ↔ v.canonical = w.canonical :=
  (yes_iff left right).trans (equal_iff_canonical left right)

theorem yes_less_iff (left : v.isExact = true) (right : w.isExact = true) :
    Yes .less v w ↔ Ordered v w .lt := by
  rw [yes_iff left right, ← order?_iff left right]
  cases found : order? v w <;> simp [holds, found, accepts]

theorem yes_greater_iff (left : v.isExact = true) (right : w.isExact = true) :
    Yes .greater v w ↔ Ordered w v .lt := by
  have turned : Ordered v w .gt ↔ Ordered w v .lt := ⟨Ordered.swap, Ordered.swap⟩
  rw [yes_iff left right, ← turned, ← order?_iff left right]
  cases found : order? v w <;> simp [holds, found, accepts]

theorem holds_ordered {op : Comparison} (found : order? v w = some o) :
    holds op v w = accepts op o := by
  have same : equal v w = (o == .eq) := by
    rw [Bool.eq_iff_iff, equal_iff, found, beq_iff_eq, Option.some.injEq]
    constructor
    · rintro (⟨vs, ws, rfl, rfl, -⟩ | ⟨rfl, rfl⟩ | same)
      · cases found
      · cases found
      · exact same
    · exact fun same => .inr (.inr same)
  cases op with
  | equal => exact same
  | notEqual => exact congrArg not same
  | less | lessEqual | greater | greaterEqual => simp [holds, found]

theorem holds_apart {op : Comparison} (left : v.isExact = true) (right : w.isExact = true)
    (apart : ¬ Comparable v w) (ordering : op.isOrdering = true) : holds op v w = false := by
  have missing : order? v w = none := by
    refine Option.eq_none_iff_forall_ne_some.2 fun o found => apart ?_
    exact comparable_iff.2 ⟨o, (order?_iff left right).1 found⟩
  cases op with
  | equal | notEqual => cases ordering
  | less | lessEqual | greater | greaterEqual => simp [holds, missing]

theorem yes_ordered {op : Comparison} (left : v.isExact = true) (right : w.isExact = true)
    (ordered : Ordered v w o) : Yes op v w ↔ accepts op o = true := by
  rw [yes_iff left right, holds_ordered ((order?_iff left right).2 ordered)]

-- Exactly one of three statements holds.
def OneOf (p q r : Prop) : Prop := p ∧ ¬ q ∧ ¬ r ∨ ¬ p ∧ q ∧ ¬ r ∨ ¬ p ∧ ¬ q ∧ r

-- Every comparison is answered; equality is an equivalence, and where there is an order it is a
-- strict one that agrees with equality.
theorem compare_laws (exact : u.isExact = true ∧ v.isExact = true ∧ w.isExact = true) :
    (∀ op, Yes op u v ∨ No op u v) ∧
    Yes .equal u u ∧ (Yes .equal u v → Yes .equal v u) ∧
    (Yes .equal u v → Yes .equal v w → Yes .equal u w) ∧
    (Yes .notEqual u v ↔ No .equal u v) ∧
    (Comparable u v → OneOf (Yes .less u v) (Yes .equal u v) (Yes .greater u v) ∧
      (Yes .lessEqual u v ↔ Yes .less u v ∨ Yes .equal u v) ∧
      (Yes .greaterEqual u v ↔ Yes .greater u v ∨ Yes .equal u v)) ∧
    (Yes .less u v ↔ Yes .greater v u) ∧
    (Yes .less u v → Yes .less v w → Yes .less u w) ∧
    (Yes .greater u v → Yes .greater v w → Yes .greater u w) ∧
    (¬ Comparable u v →
      No .less u v ∧ No .lessEqual u v ∧ No .greater u v ∧ No .greaterEqual u v) := by
  obtain ⟨first, second, third⟩ := exact
  refine ⟨?_, ?_, ?_, ?_, ?_, ?_, ?_, ?_, ?_, ?_⟩
  · intro op
    rw [yes_iff first second, no_iff first second]
    cases holds op u v <;> simp
  · rw [yes_equal_iff first first]
  · rw [yes_equal_iff first second, yes_equal_iff second first]
    exact Eq.symm
  · rw [yes_equal_iff first second, yes_equal_iff second third, yes_equal_iff first third]
    exact Eq.trans
  · rw [yes_iff first second, no_iff first second]
    simp [holds]
  · intro comparable
    obtain ⟨o, ordered⟩ := comparable_iff.1 comparable
    simp only [yes_ordered first second ordered, OneOf]
    cases o <;> decide
  · rw [yes_less_iff first second, yes_greater_iff second first]
  · rw [yes_less_iff first second, yes_less_iff second third, yes_less_iff first third]
    exact Ordered.lt_trans
  · rw [yes_greater_iff first second, yes_greater_iff second third, yes_greater_iff first third]
    exact fun above above' => above'.lt_trans above
  · intro apart
    have no : ∀ {op : Comparison}, op.isOrdering = true → No op u v :=
      fun ordering => (no_iff first second).2 (holds_apart first second apart ordering)
    exact ⟨no rfl, no rfl, no rfl, no rfl⟩

theorem nestedLists_equal :
    (list [integer 1, list [state false]]).isExact = true ∧
      (list [state true, list [integer 0]]).isExact = true ∧
      Yes .equal (list [integer 1, list [state false]]) (list [state true, list [state false]]) := by
  have exact : (list [integer 1, list [state false]]).isExact = true ∧
      (list [state true, list [integer 0]]).isExact = true ∧
      (list [state true, list [state false]]).isExact = true := ⟨rfl, rfl, rfl⟩
  obtain ⟨-, -, -, trans, -⟩ := compare_laws exact
  exact ⟨rfl, rfl, trans rfl rfl⟩

end Scriptlet.Value
