import Scriptlet.Proofs.Value.Refinement

/-!
Operators on values that are not known yet. An operator that is applied while parts are unknown
gives an answer that stays right when they become known, with one exception: two lists are called
unequal although they may still turn out to be equal.
-/

namespace Scriptlet.Value

variable {u v v' w w' : Value} {vs us vs' us' : List Value} {op : BinaryOp}

mutual

-- What is equal to something has no unknown parts, so it can only turn out to be itself.
theorem Refines.eq_of_equal : ∀ {v' v w : Value}, v'.Refines v →
    equal v w = true ∨ equal w v = true → v' = v
  | _, _, w, .unknown, same => by
    cases w <;> simp [equal, order?, tag, Tag.isNumeric] at same
  | _, _, _, .same, _ => rfl
  | _, _, w, .list items, same => by
    cases w with
    | list ws =>
      rw [equal, equal] at same
      rw [items.eq_of_equalAll same]
    | _ => simp [equal, order?_list_left, order?_list_right] at same

theorem RefinesAll.eq_of_equalAll : ∀ {vs' vs ws : List Value}, RefinesAll vs' vs →
    equalAll vs ws = true ∨ equalAll ws vs = true → vs' = vs
  | _, _, _, .nil, _ => rfl
  | _, _, ws, .cons first rest, same => by
    cases ws with
    | nil => simp [equalAll] at same
    | cons w ws =>
      rw [equalAll, equalAll, Bool.and_eq_true, Bool.and_eq_true] at same
      rw [first.eq_of_equal (same.imp And.left And.left),
        rest.eq_of_equalAll (same.imp And.right And.right)]

end

theorem arithmetic_list_left {op : Arithmetic} (single : ∀ ws, w ≠ list ws) :
    arithmetic op (list vs) w = arithmetic op (list vs') w := by
  cases w with
  | list ws => exact absurd rfl (single ws)
  | _ => rfl

theorem arithmetic_list_right {op : Arithmetic} (single : ∀ vs, v ≠ list vs) :
    arithmetic op v (list us) = arithmetic op v (list us') := by
  cases v with
  | list vs => exact absurd rfl (single vs)
  | _ => rfl

theorem arithmetic_lists_refined {op : Arithmetic} (left : RefinesAll vs' vs)
    (right : RefinesAll us' us) :
    arithmetic op (list vs') (list us') = arithmetic op (list vs) (list us) ∨
      ∃ joined' joined, arithmetic op (list vs') (list us') = .ok (list joined') ∧
        arithmetic op (list vs) (list us) = .ok (list joined) ∧ RefinesAll joined' joined := by
  by_cases join : op = .add
  · subst join
    exact .inr ⟨_, _, rfl, rfl, left.append right⟩
  · rw [arithmetic, arithmetic, if_neg join, if_neg join]
    exact .inl rfl

theorem arithmetic_refined {op : Arithmetic} (left : v'.Refines v) (right : w'.Refines w)
    (known : v.isUnknown = false) (known' : w.isUnknown = false) :
    arithmetic op v' w' = arithmetic op v w ∨
      ∃ joined' joined, arithmetic op v' w' = .ok (list joined') ∧
        arithmetic op v w = .ok (list joined) ∧ RefinesAll joined' joined := by
  obtain rfl | ⟨vs', vs, rfl, rfl, items⟩ := left.known known
  · obtain rfl | ⟨ws', ws, rfl, rfl, items'⟩ := right.known known'
    · exact .inl rfl
    · by_cases is : ∃ vs, v' = list vs
      · obtain ⟨vs, rfl⟩ := is
        exact arithmetic_lists_refined (.same vs) items'
      · exact .inl (arithmetic_list_right fun vs same => is ⟨vs, same⟩)
  · obtain rfl | ⟨ws', ws, rfl, rfl, items'⟩ := right.known known'
    · by_cases is : ∃ ws, w' = list ws
      · obtain ⟨ws, rfl⟩ := is
        exact arithmetic_lists_refined items (.same ws)
      · exact .inl (arithmetic_list_left fun ws same => is ⟨ws, same⟩)
    · exact arithmetic_lists_refined items items'

theorem holds_ordering_refined {op : Comparison} (left : v'.Refines v) (right : w'.Refines w)
    (known : v.isUnknown = false) (known' : w.isUnknown = false)
    (ordering : op.isOrdering = true) : holds op v' w' = holds op v w := by
  have same := order?_refined left right known known'
  cases op with
  | equal | notEqual => cases ordering
  | less | lessEqual | greater | greaterEqual => simp only [holds, same]

theorem applyBinary_unknown (unknown : ¬ (v.isUnknown = false ∧ w.isUnknown = false)) :
    applyBinary op v w = .ok .unknown := by
  have absorbed : (v.isUnknown || w.isUnknown) = true := by
    cases left : v.isUnknown <;> cases right : w.isUnknown <;> simp_all
  simp [applyBinary, absorbed]

theorem applyBinary_comparison {op : Comparison} (known : v.isUnknown = false)
    (known' : w.isUnknown = false) :
    applyBinary (.comparison op) v w = .ok (state (holds op v w)) := by
  simp [applyBinary, known, known']

theorem applyBinary_arithmetic {op : Arithmetic} (known : v.isUnknown = false)
    (known' : w.isUnknown = false) : applyBinary (.arithmetic op) v w = arithmetic op v w := by
  simp [applyBinary, known, known']

theorem applyBinary_logical_refined {op : Logical} (left : v'.Refines v) (right : w'.Refines w)
    (known : v.isUnknown = false) (known' : w.isUnknown = false) :
    applyBinary (.logical op) v' w' = applyBinary (.logical op) v w := by
  simp only [applyBinary, known, known', left.isUnknown known, right.isUnknown known',
    left.truth known, right.truth known']
  cases op <;> rfl

theorem applyBinary_same_or_lists (left : v'.Refines v) (right : w'.Refines w)
    (known : v.isUnknown = false) (known' : w.isUnknown = false)
    (compared : ∀ op', op = .comparison op' → holds op' v' w' = holds op' v w) :
    applyBinary op v' w' = applyBinary op v w ∨
      ∃ joined' joined, applyBinary op v' w' = .ok (list joined') ∧
        applyBinary op v w = .ok (list joined) ∧ RefinesAll joined' joined := by
  have known₁ := left.isUnknown known
  have known₂ := right.isUnknown known'
  cases op with
  | logical op => exact .inl (applyBinary_logical_refined left right known known')
  | comparison op =>
    rw [applyBinary_comparison known known', applyBinary_comparison known₁ known₂, compared op rfl]
    exact .inl rfl
  | arithmetic op =>
    rw [applyBinary_arithmetic known known', applyBinary_arithmetic known₁ known₂]
    exact arithmetic_refined left right known known'

theorem applyBinary_error_refined {failure : ValueFailure} (left : v'.Refines v)
    (right : w'.Refines w) (failed : applyBinary op v w = .error failure) :
    applyBinary op v' w' = .error failure := by
  by_cases known : v.isUnknown = false ∧ w.isUnknown = false
  · have compared : ∀ op', op = .comparison op' → holds op' v' w' = holds op' v w := by
      rintro op' rfl
      cases (applyBinary_comparison known.1 known.2).symm.trans failed
    obtain same | ⟨_, _, -, joined, -⟩ :=
      applyBinary_same_or_lists left right known.1 known.2 compared
    · exact same.trans failed
    · cases joined.symm.trans failed
  · cases (applyBinary_unknown known).symm.trans failed

-- Whether the operator asks if two values are equal.
def asksEquality : BinaryOp → Bool
  | .comparison .equal | .comparison .notEqual => true
  | _ => false

-- The operator takes two values for unequal that may turn out to be equal.
def Premature (op : BinaryOp) (v w : Value) : Prop :=
  asksEquality op = true ∧ v.isUnknown = false ∧ w.isUnknown = false ∧ equal v w = false ∧
    reconcilable v w = true

theorem equal_refined (left : v'.Refines v) (right : w'.Refines w)
    (settled : equal v w = true ∨ reconcilable v w = false) : equal v' w' = equal v w := by
  rcases settled with same | apart
  · rw [left.eq_of_equal (.inl same), right.eq_of_equal (.inr same)]
  · have differ : ∀ {v' w' : Value}, v'.Refines v → w'.Refines w → equal v' w' = false := by
      intro v' w' left right
      rw [← Bool.not_eq_true]
      intro same
      rw [reconcilable_of_equal left right same] at apart
      cases apart
    rw [differ left right, differ .same .same]

theorem holds_settled {op : Comparison} (left : v'.Refines v) (right : w'.Refines w)
    (known : v.isUnknown = false) (known' : w.isUnknown = false)
    (settled : ¬ Premature (.comparison op) v w) : holds op v' w' = holds op v w := by
  have equality : asksEquality (.comparison op) = true → equal v' w' = equal v w := by
    intro asks
    refine equal_refined left right ?_
    cases same : equal v w with
    | true => exact .inl rfl
    | false =>
      refine .inr (Bool.eq_false_iff.2 fun agree => ?_)
      exact settled ⟨asks, known, known', same, agree⟩
  cases op with
  | equal => rw [holds, holds, equality rfl]
  | notEqual => rw [holds, holds, equality rfl]
  | less | lessEqual | greater | greaterEqual =>
    exact holds_ordering_refined left right known known' rfl

theorem applyBinary_refined (left : v'.Refines v) (right : w'.Refines w)
    (settled : ¬ Premature op v w) (folded : applyBinary op v w = .ok u) {u' : Value}
    (run : applyBinary op v' w' = .ok u') : u'.Refines u := by
  by_cases known : v.isUnknown = false ∧ w.isUnknown = false
  · have compared : ∀ op', op = .comparison op' → holds op' v' w' = holds op' v w := by
      rintro op' rfl
      exact holds_settled left right known.1 known.2 settled
    obtain same | ⟨joined', joined, made', made, items⟩ :=
      applyBinary_same_or_lists left right known.1 known.2 compared
    · cases Except.ok.inj (run.symm.trans (same.trans folded))
      exact .same
    · cases Except.ok.inj (made'.symm.trans run)
      cases Except.ok.inj (made.symm.trans folded)
      exact .list items
  · cases Except.ok.inj ((applyBinary_unknown known).symm.trans folded)
    exact .unknown

theorem state_refines {b b' : Bool} (refined : (state b').Refines (state b)) : b' = b := by
  cases refined
  rfl

theorem Premature.wrong (premature : Premature op v w) (folded : applyBinary op v w = .ok u) :
    ∃ v' w' u', v'.Refines v ∧ w'.Refines w ∧ applyBinary op v' w' = .ok u' ∧ ¬ u'.Refines u := by
  obtain ⟨asks, known, known', differ, agree⟩ := premature
  obtain ⟨v', w', left, right, same⟩ := equal_of_reconcilable agree
  unfold asksEquality at asks
  split at asks
  · refine ⟨v', w', _, left, right,
      applyBinary_comparison (left.isUnknown known) (right.isUnknown known'), ?_⟩
    cases Except.ok.inj ((applyBinary_comparison known known').symm.trans folded)
    rw [holds, holds, same, differ]
    exact fun refined => nomatch state_refines refined
  · refine ⟨v', w', _, left, right,
      applyBinary_comparison (left.isUnknown known) (right.isUnknown known'), ?_⟩
    cases Except.ok.inj ((applyBinary_comparison known known').symm.trans folded)
    rw [holds, holds, same, differ]
    exact fun refined => nomatch state_refines refined
  · cases asks

-- An operator on values with unknown parts fails only where it fails for every choice of them,
-- and in the same way. What it gives is right for every choice, unless it is premature.
theorem folding_sound_iff (op : BinaryOp) (v w : Value) :
    (∀ failure, applyBinary op v w = .error failure →
      ∀ v' w', v'.Refines v → w'.Refines w → applyBinary op v' w' = .error failure) ∧
    ∀ u, applyBinary op v w = .ok u →
      ((∀ v' w' u', v'.Refines v → w'.Refines w → applyBinary op v' w' = .ok u' → u'.Refines u) ↔
        ¬ Premature op v w) := by
  refine ⟨fun failure failed v' w' left right => applyBinary_error_refined left right failed, ?_⟩
  intro u folded
  constructor
  · intro sound premature
    obtain ⟨v', w', u', left, right, run, wrong⟩ := premature.wrong folded
    exact wrong (sound v' w' u' left right run)
  · intro settled v' w' u' left right run
    exact applyBinary_refined left right settled folded run

-- A list with an unknown element is taken for different from the list of one.
theorem openList_premature :
    applyBinary (.comparison .equal) (list [unknown]) (list [integer 1]) = .ok (state false) ∧
      Premature (.comparison .equal) (list [unknown]) (list [integer 1]) ∧
      ¬ ∀ v' w' u', v'.Refines (list [unknown]) → w'.Refines (list [integer 1]) →
        applyBinary (.comparison .equal) v' w' = .ok u' → u'.Refines (state false) := by
  have folded : applyBinary (.comparison .equal) (list [unknown]) (list [integer 1]) =
      .ok (state false) := rfl
  have premature : Premature (.comparison .equal) (list [unknown]) (list [integer 1]) :=
    ⟨rfl, rfl, rfl, rfl, rfl⟩
  exact ⟨folded, premature, fun sound =>
    ((folding_sound_iff _ _ _).2 _ folded).1 sound premature⟩

end Scriptlet.Value
