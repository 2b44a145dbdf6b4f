import Scriptlet.Proofs.Simulation.Arithmetic

/-!
Lowered operators. Given the types of the operands and images of their values, the lowered form
of an operator evaluates to an image of the value that the check has found.
-/

namespace Scriptlet

open Target

variable {env : Env} {e l r : Target.Expr} {v w u : Value} {p q : Object}

theorem free_mono {names names' : List String} (free : env.Free names)
    (fewer : ∀ name ∈ names', name ∈ names) : env.Free names' :=
  fun name listed => free name (fewer name listed)

theorem invoke_builtin {function : String} {arguments : List Object}
    (free : env.Free helperNames) (helper : function ∈ helperNames)
    (other : function ≠ showHelper) :
    invoke env function arguments = builtin function arguments := by
  unfold invoke
  rw [if_neg other, if_pos]
  exact free_mono free fun name listed => List.mem_singleton.1 listed ▸ helper

theorem eval_call {function : String} {object : Object} (free : env.Free helperNames)
    (helper : function ∈ helperNames) (other : function ≠ showHelper)
    (operand : e.eval env = .ok object) :
    (Target.Expr.call function [e]).eval env = builtin function [object] := by
  simp only [Target.Expr.eval, Target.Expr.evalAll, operand]
  exact invoke_builtin free helper other

theorem eval_textOf (free : env.Free helperNames) (image : Image v p) (plain : v.tag ≠ .list)
    (operand : e.eval env = .ok p) : (textOf e v.tag).eval env = .ok (.str v.shown) := by
  cases image with
  | integer n => exact eval_call free (by decide) (by decide) operand
  | state b => simp only [textOf, Value.tag, Target.Expr.eval, operand]; rfl
  | text s => exact operand
  | empty => rfl
  | list => exact absurd rfl plain

theorem eval_numericOperand (image : Image v p) (operand : e.eval env = .ok p) :
    (numericOperand e (some v.tag)).eval env = .ok (counted p) := by
  cases image with
  | empty => rfl
  | integer | state | text | list => exact operand

theorem eval_condition (image : Image v p) (operand : e.eval env = .ok p) :
    ∃ c, (condition e (some v.tag)).eval env = .ok c ∧ c.truth = v.truth := by
  cases image with
  | integer n => exact ⟨_, operand, (Image.integer n).truth Tag.noConfusion⟩
  | state b => exact ⟨_, operand, rfl⟩
  | text s => exact ⟨_, operand, rfl⟩
  | empty => exact ⟨_, operand, rfl⟩
  | list items =>
    refine ⟨.bool false, ?_, rfl⟩
    simp only [condition, Value.tag, Target.Expr.eval, Target.Expr.evalAll, operand]
    rfl

theorem eval_bool (free : env.Free helperNames) (image : Image v p) (operand : e.eval env = .ok p) :
    (Target.Expr.call "bool" [condition e (some v.tag)]).eval env = .ok (.bool v.truth) := by
  obtain ⟨c, evaluated, truth⟩ := eval_condition image operand
  rw [eval_call free (by decide) (by decide) evaluated, ← truth]
  rfl

theorem eval_node {op : Operator} (first : l.eval env = .ok p) (second : r.eval env = .ok q) :
    (Target.Expr.binary op l r).eval env = p.binary op q := by
  rw [Target.Expr.eval, first, second]
  rfl

theorem eval_falseAfter (first : l.eval env = .ok p) (second : r.eval env = .ok q) :
    (Target.Expr.falseAfter [l, r]).eval env = .ok (.bool false) := by
  rw [Target.Expr.eval, Target.Expr.evalAll, Target.Expr.evalAll, first, second]
  rfl

section Binary

variable (free : env.Free helperNames) (left : Image v p) (right : Image w q)
  (first : l.eval env = .ok p) (second : r.eval env = .ok q)

include left right in
theorem applyBinary_known {op : BinaryOp} : Value.applyBinary op v w =
    match op with
    | .logical .or => .ok (.state (v.truth || w.truth))
    | .logical .and => .ok (.state (v.truth && w.truth))
    | .comparison op => .ok (.state (Value.holds op v w))
    | .arithmetic op => Value.arithmetic op v w := by
  unfold Value.applyBinary
  rw [left.known, right.known]
  rfl

include free left right first second

theorem eval_logical {op : Logical} (outcome : Value.applyBinary (.logical op) v w = .ok u)
    (whole : Option Tag) :
    ∃ object, (Target.binary (.logical op) whole (some v.tag) (some w.tag) l r).eval env =
      .ok object ∧ Image u object := by
  rw [applyBinary_known left right] at outcome
  have first' := eval_bool free left first
  have second' := eval_bool free right second
  cases op with
  | or =>
    cases outcome
    exact ⟨_, eval_node first' second', .state _⟩
  | and =>
    cases outcome
    exact ⟨_, eval_node first' second', .state _⟩

omit free in
theorem eval_comparison {op : Comparison}
    (outcome : Value.applyBinary (.comparison op) v w = .ok u) (whole : Option Tag) :
    ∃ object, (Target.binary (.comparison op) whole (some v.tag) (some w.tag) l r).eval env =
      .ok object ∧ Image u object := by
  rw [applyBinary_known left right] at outcome
  cases outcome
  refine ⟨.bool (Value.holds op v w), ?_, .state _⟩
  simp only [Target.binary]
  split
  · rename_i unordered
    rw [Bool.and_eq_true] at unordered
    rw [eval_falseAfter first second, Image.holds_ordering unordered.1,
      Image.order_none unordered.2, Option.any_none]
  · rename_i ordered
    rw [eval_node first second]
    exact left.comparison right (by simpa using ordered)

-- Which form of `+` is written follows from the types.
theorem eval_arithmetic {op : Arithmetic} (outcome : Value.arithmetic op v w = .ok u) :
    ∃ object, (Target.binary (.arithmetic op) (some u.tag) (some v.tag) (some w.tag) l r).eval env =
      .ok object ∧ Held u object := by
  cases computed outcome with
  | joined leftList rightList added result =>
    subst leftList rightList added result
    cases left with | list vs =>
    cases right with | list ws =>
    exact ⟨_, eval_node first second, .image (.list (vs.append ws))⟩
  | concatenated plain plain' texts added result =>
    subst added result
    refine ⟨.str (v.shown ++ w.shown), ?_, .image (.text _)⟩
    exact eval_node (eval_textOf free left plain first) (eval_textOf free right plain' second)
  | counted countable countable' result =>
    obtain ⟨object, computed, held, numeric⟩ :=
      numericArithmetic_held left right countable countable' result
    refine ⟨object, ?_, held⟩
    have separate : concatenates (some u.tag) (some v.tag) (some w.tag) = false := by
      simp [concatenates, numeric.2, countable.2, countable'.2]
    simp only [Target.binary, separate, Bool.false_eq_true, and_false, reduceIte]
    rw [eval_node (eval_numericOperand left first) (eval_numericOperand right second)]
    exact computed

theorem eval_binary {op : BinaryOp} (outcome : Value.applyBinary op v w = .ok u) :
    ∃ object, (Target.binary op (some u.tag) (some v.tag) (some w.tag) l r).eval env =
      .ok object ∧ Held u object := by
  cases op with
  | logical op =>
    obtain ⟨object, evaluated, image⟩ :=
      eval_logical free left right first second outcome (some u.tag)
    exact ⟨object, evaluated, .image image⟩
  | comparison op =>
    obtain ⟨object, evaluated, image⟩ :=
      eval_comparison left right first second outcome (some u.tag)
    exact ⟨object, evaluated, .image image⟩
  | arithmetic op =>
    rw [applyBinary_known left right] at outcome
    exact eval_arithmetic free left right first second outcome

end Binary

theorem eval_not (image : Image v p) (operand : e.eval env = .ok p)
    (outcome : Value.applyUnary .not v = .ok u) :
    ∃ object, (Target.Expr.not (condition e (some v.tag))).eval env = .ok object ∧
      Image u object := by
  unfold Value.applyUnary at outcome
  rw [image.known] at outcome
  cases outcome
  obtain ⟨c, evaluated, truth⟩ := eval_condition image operand
  refine ⟨.bool !v.truth, ?_, .state _⟩
  rw [Target.Expr.eval, evaluated, ← truth]
  rfl

theorem eval_negate (image : Image v p) (operand : e.eval env = .ok p)
    (outcome : Value.applyUnary .negate v = .ok u) :
    ∃ object, (Target.Expr.negate e).eval env = .ok object ∧ Image u object := by
  have negated : (Target.Expr.negate e).eval env = p.negated := by
    rw [Target.Expr.eval, operand]
    rfl
  unfold Value.applyUnary at outcome
  rw [image.known] at outcome
  rw [negated]
  cases image with
  | integer n =>
    simp only [Value.negate, Bool.false_eq_true, reduceIte] at outcome
    split at outcome
    · rename_i m fits
      cases outcome
      have same : m.toInt = -n.toInt := Integer.toInt_ofInt? fits
      exact ⟨.int (-n.toInt), rfl, same ▸ .integer m⟩
    · cases outcome
  | state b =>
    cases outcome
    cases b with
    | false => exact ⟨.int 0, rfl, .integer 0⟩
    | true => exact ⟨.int (-1), rfl, .integer (-1)⟩
  | text | empty | list => cases outcome

theorem numeral_of_read {s : String} {n : Int64}
    (read : Integer.read? (Text.trim s.toList) = some n) :
    Object.numeral? s = some n.toInt := by
  unfold Integer.read? at read
  unfold Object.numeral?
  generalize Text.trim s.toList = cs at read ⊢
  split at read
  · obtain ⟨m, digits, fits⟩ := Option.bind_eq_some_iff.1 read
    simp only [digits, Option.map_some, Integer.toInt_ofInt? fits]
  · obtain ⟨m, digits, fits⟩ := Option.bind_eq_some_iff.1 read
    simp only [digits, Option.map_some, Integer.toInt_ofInt? fits]
  · obtain ⟨m, digits, fits⟩ := Option.bind_eq_some_iff.1 read
    simp only [digits, Option.map_some, Integer.toInt_ofInt? fits]

theorem eval_cast (free : env.Free helperNames) {target : CastTarget} (image : Image v p)
    (operand : e.eval env = .ok p) (outcome : Value.castTo target v = .ok u)
    (pointless : u.tag ≠ .point) :
    ∃ object, (Target.cast target (some v.tag) e).eval env = .ok object ∧ Image u object := by
  have called : ∀ function ∈ ["int", "str", "bool"],
      (Target.Expr.call function [e]).eval env = builtin function [p] := by
    intro function listed
    refine eval_call free ?_ ?_ operand
    · revert function
      decide
    · revert function
      decide
  cases image with
  | list items => cases outcome; exact ⟨_, operand, .list items⟩
  | empty => cases outcome; exact ⟨_, operand, .empty⟩
  | integer n =>
    cases target with
    | integer => cases outcome; exact ⟨_, called "int" (by simp), .integer n⟩
    | point => cases outcome; exact absurd rfl pointless
    | text => cases outcome; exact ⟨_, called "str" (by simp), .text _⟩
    | state =>
      cases outcome
      refine ⟨_, called "bool" (by simp), ?_⟩
      exact (Image.integer n).truth Tag.noConfusion ▸ .state _
  | state b =>
    cases target with
    | integer =>
      cases outcome
      exact ⟨_, called "int" (by simp), Image.toInt_ofBool b ▸ .integer (Integer.ofBool b)⟩
    | point => cases outcome; exact absurd rfl pointless
    | text => cases outcome; exact ⟨_, eval_textOf free (.state b) Tag.noConfusion operand, .text _⟩
    | state => cases outcome; exact ⟨_, called "bool" (by simp), .state b⟩
  | text s =>
    cases target with
    | integer =>
      cases read : Integer.read? (Text.trim s.toList) with
      | none =>
        simp only [Value.castTo, Value.toInteger?, read] at outcome
        cases outcome
      | some n =>
        simp only [Value.castTo, Value.toInteger?, read] at outcome
        cases outcome
        have parsed : builtin "int" [.str s] = .ok (.int n.toInt) := by
          simp [builtin, Object.int?, numeral_of_read read]
        exact ⟨_, (called "int" (by simp)).trans parsed, .integer n⟩
    | point =>
      cases read : (Value.text s).toPoint? with
      | none =>
        simp only [Value.castTo, read] at outcome
        cases outcome
      | some x =>
        simp only [Value.castTo, read] at outcome
        cases outcome
        exact absurd rfl pointless
    | text => cases outcome; exact ⟨_, called "str" (by simp), .text s⟩
    | state => cases outcome; exact ⟨_, called "bool" (by simp), .state _⟩

end Scriptlet
