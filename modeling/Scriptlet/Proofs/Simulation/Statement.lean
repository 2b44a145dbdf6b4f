import Scriptlet.Proofs.Simulation.Expression

/-!
Lines of Python: what a lowered assignment, a lowered compound assignment and a line that shows a
value do, where the variables agree with the symbols.
-/

namespace Scriptlet

open Target

variable {a b : Analysis} {bindings bindings' : List Symbol} {env : Env} {name : String}
  {e : Target.Expr} {v w u : Value} {p q : Object} {op : Arithmetic}

theorem exec_assign (evaluated : e.eval env = .ok p) :
    (Target.Stmt.assign name e).exec env = .ok ((name, p) :: env, []) := by
  rw [Target.Stmt.exec, evaluated]
  rfl

theorem eval_name (bound : env.lookup name = some p) :
    (Target.Expr.name name).eval env = .ok p := by
  rw [Target.Expr.eval, bound]
  rfl

theorem exec_augment (bound : env.lookup name = some p) (plain : ∀ items, p ≠ .list items)
    (evaluated : e.eval env = .ok q) {object : Object} (computed : p.arithmetic op q = .ok object) :
    (Target.Stmt.augment name op e).exec env = .ok ((name, object) :: env, []) := by
  rw [Target.Stmt.exec, eval_name bound, evaluated]
  cases p with
  | list items => exact absurd rfl (plain items)
  | _ =>
    simp only [bind, Except.bind, computed]
    rfl

-- A call that prints has no value, so an expression with a value prints nothing.
theorem printed?_of_eval (evaluated : e.eval env = .ok p) : e.printed? = none := by
  unfold Target.Expr.printed?
  split
  · rename_i function argument
    split
    · rename_i helper
      subst helper
      have single : ∀ object, invoke env showHelper [object] = .error .refused := by
        intro object
        have refused : builtin showHelper [object] = .error .refused := rfl
        rw [invoke, refused, ite_self]
      rw [Target.Expr.eval, Target.Expr.evalAll] at evaluated
      cases value : argument.eval env with
      | error raised =>
        rw [value] at evaluated
        cases evaluated
      | ok object =>
        rw [value] at evaluated
        cases (single object).symm.trans evaluated
    · rfl
  · rfl

theorem exec_expression (evaluated : e.eval env = .ok p) :
    (Target.Stmt.expression e).exec env = .ok (env, []) := by
  rw [Target.Stmt.exec, printed?_of_eval evaluated, evaluated]
  rfl

theorem exec_show (free : env.Free helperNames) (image : Image v p)
    (evaluated : e.eval env = .ok p) :
    (Target.Stmt.expression (.call showHelper [e])).exec env = .ok (env, [v.shown]) := by
  have own : env.Free showNames := free_mono free (by decide)
  rw [Target.Stmt.exec, Target.Expr.printed?, if_pos rfl]
  simp only [bind, Except.bind, evaluated, if_pos own, image.display]

-- The line for numbers and lists, given the type of the variable.
def Target.countedLine (name : String) (op : Arithmetic) (right : Target.Expr) : Tag → Target.Stmt
  | .empty => .assign name (.binary (.arithmetic op) (.integer 0) right)
  | .list | .unknown => .assign name (.binary (.arithmetic op) (.name name) right)
  | .integer | .point | .state | .text => .augment name op right

theorem compound_counted {target operand : Tag}
    (apart : op = .add → target ≠ .text ∧ operand ≠ .text) :
    compound name op (some target) (some operand) e =
      countedLine name op (numericOperand e (some operand)) target := by
  unfold compound
  dsimp only
  split
  · rename_i same _
    cases same
    exact absurd rfl (apart rfl).1
  · rename_i same
    cases same
    exact absurd rfl (apart rfl).2
  · cases target <;> rfl

theorem exec_compound (free : env.Free helperNames) (bound : env.lookup name = some p)
    (left : Image v p) (right : Image w q) (evaluated : e.eval env = .ok q)
    (outcome : Value.applyBinary (.arithmetic op) v w = .ok u) :
    ∃ object, (compound name op (some v.tag) (some w.tag) e).exec env =
      .ok ((name, object) :: env, []) ∧ Held u object := by
  rw [applyBinary_known left right] at outcome
  cases computed outcome with
  | joined leftList rightList added result =>
    subst leftList rightList added result
    cases left with | list vs =>
    cases right with | list ws =>
    exact ⟨_, exec_assign (eval_node (eval_name bound) evaluated), .image (.list (vs.append ws))⟩
  | concatenated plain plain' texts added result =>
    subst added result
    have operand := eval_textOf free right plain' evaluated
    have before := eval_textOf free left plain (eval_name bound)
    refine ⟨.str (v.shown ++ w.shown), ?_, .image (.text _)⟩
    cases left with
    | text s => exact exec_augment bound (fun _ => Object.noConfusion) operand rfl
    | list => exact absurd rfl plain
    | integer | state | empty =>
      have text : w.tag = .text := texts.resolve_left Tag.noConfusion
      rw [text] at operand ⊢
      exact exec_assign (eval_node before operand)
  | counted countable countable' result =>
    obtain ⟨object, sum, held, -⟩ := numericArithmetic_held left right countable countable' result
    refine ⟨object, ?_, held⟩
    rw [compound_counted fun _ => ⟨countable.2, countable'.2⟩]
    have operand := eval_numericOperand right evaluated
    cases left with
    | empty => exact exec_assign ((eval_node rfl operand).trans sum)
    | integer n => exact exec_augment bound (fun _ => Object.noConfusion) operand sum
    | state b => exact exec_augment bound (fun _ => Object.noConfusion) operand sum
    | text => exact absurd rfl countable.2
    | list => exact absurd rfl countable.1

theorem lookup_set {n : String} : List.lookup n ((name, p) :: env) =
    if n = name then some p else env.lookup n := by
  rw [List.lookup_cons]
  by_cases same : n = name
  · simp [same]
  · rw [if_neg same, beq_false_of_ne same]

theorem Agrees.set (agrees : Agrees bindings env) (named : IsName name) (held : Held v p)
    (others : ∀ x symbol, x ≠ name → bindings'.find? (·.name = x) = some symbol →
      bindings.find? (·.name = x) = some symbol)
    (own : ∀ symbol, bindings'.find? (·.name = name) = some symbol → symbol.value = v) :
    Agrees bindings' ((spell name, p) :: env) where
  named x symbol found := by
    by_cases same : x = name
    · exact same ▸ named
    · exact agrees.named x symbol (others x symbol same found)
  held x symbol found := by
    rw [lookup_set]
    by_cases same : x = name
    · subst same
      exact ⟨p, if_pos rfl, own symbol found ▸ held⟩
    · have before := others x symbol same found
      obtain ⟨object, bound, kept⟩ := agrees.held x symbol before
      have apart : spell x ≠ spell name := fun equal =>
        same (spell_inj (agrees.named x symbol before) named equal)
      exact ⟨object, by rw [if_neg apart, bound], kept⟩
  free n helper := by
    have apart : n ≠ spell name := fun equal => spell_ne_helper named (equal ▸ helper)
    rw [lookup_set, if_neg apart]
    exact agrees.free n helper

theorem Agrees.assign (agrees : Agrees bindings env) (named : IsName name) (held : Held v p) :
    Agrees (bindings.map (Symbol.rebind name v)) ((spell name, p) :: env) :=
  agrees.set named held (fun _ _ => SymbolTable.find?_rebind_other) fun _ =>
    SymbolTable.find?_rebind_own

theorem Agrees.declare (agrees : Agrees bindings env) (named : IsName name) (held : Held v p)
    {symbol : Symbol} (called : symbol.name = name) :
    Agrees ((bindings ++ [symbol]).map (Symbol.rebind name v)) ((spell name, p) :: env) := by
  refine agrees.set named held (fun x found other same => ?_) fun _ => SymbolTable.find?_rebind_own
  have listed := SymbolTable.find?_rebind_other other same
  rw [List.find?_append, Option.or_eq_some_iff] at listed
  rcases listed with old | ⟨-, new⟩
  · exact old
  · have last : found = symbol := List.mem_singleton.1 (List.mem_of_find?_eq_some new)
    have own : found.name = x := by simpa using List.find?_some new
    exact absurd (own.symm.trans (last ▸ called)) other

end Scriptlet
