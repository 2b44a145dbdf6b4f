import Scriptlet.Proofs.Analysis.Levels

namespace Scriptlet.Analysis

variable {a b : Analysis} {e : Expr} {name : String} {position : Position}

theorem accepted_of_grows (grows : a.diagnostics <+: b.diagnostics) (accepted : b.accepted = true) :
    a.accepted = true := by
  rw [accepted_iff] at accepted ⊢
  exact List.prefix_nil.1 (accepted ▸ grows)

theorem report_grows {d : Diagnostic} : a.diagnostics <+: (a.report d).diagnostics :=
  List.prefix_append ..

theorem evaluate_grows : a.diagnostics <+: (a.evaluate e).diagnostics :=
  List.prefix_append ..

theorem declare_grows {fixed : Bool} {repeated : Diagnostic} {value : Value} :
    a.diagnostics <+: (a.declare name fixed position repeated value).diagnostics := by
  unfold declare
  split
  · exact report_grows
  · split
    · exact report_grows
    · exact List.prefix_rfl

theorem checkDeclarator_grows {fixed : Bool} {d : Declarator} :
    a.diagnostics <+: (checkDeclarator fixed a d).diagnostics := by
  unfold checkDeclarator
  dsimp only
  split
  · exact declare_grows
  · exact evaluate_grows.trans declare_grows

theorem checkAssignment_grows {op : AssignOp} :
    (a.evaluate e).diagnostics <+: (a.checkAssignment name position op e).diagnostics := by
  unfold checkAssignment
  dsimp only
  split
  · exact report_grows
  · split
    · exact report_grows
    · cases op with
      | assign => exact List.prefix_rfl
      | compound op => exact List.prefix_append ..

theorem register_grows {parameters : List String} :
    a.diagnostics <+: (a.register name parameters position).diagnostics := by
  unfold register
  split
  · exact report_grows
  · split
    · exact report_grows
    · split
      · exact report_grows
      · exact List.prefix_rfl

theorem foldl_grows {α : Type} {step : Analysis → α → Analysis} {xs : List α}
    (each : ∀ a x, a.diagnostics <+: (step a x).diagnostics) :
    a.diagnostics <+: (xs.foldl step a).diagnostics := by
  induction xs generalizing a with
  | nil => exact List.prefix_rfl
  | cons x xs ih => exact (each a x).trans ih

theorem opened_grows {parameters : List Parameter} :
    a.diagnostics <+: (a.opened name position parameters).diagnostics :=
  register_grows.trans (foldl_grows (a := enter _) fun _ _ => declare_grows)

mutual

theorem check_grows {inFunction : Bool} : ∀ {s : Stmt} {a : Analysis},
    a.diagnostics <+: (a.check inFunction s).diagnostics
  | .declaration .., _ => foldl_grows fun _ _ => checkDeclarator_grows
  | .assignment .., _ => evaluate_grows.trans checkAssignment_grows
  | .function .., _ => by
    rw [check_function]
    exact opened_grows.trans checkAll_grows
  | .output .., _ => evaluate_grows
  | .throw .., _ => by
    rw [check]
    split
    · exact evaluate_grows
    · exact evaluate_grows.trans report_grows
  | .expression .., _ => evaluate_grows

theorem checkAll_grows {inFunction : Bool} : ∀ {body : List Stmt} {a : Analysis},
    a.diagnostics <+: (a.checkAll inFunction body).diagnostics
  | [], _ => List.prefix_rfl
  | _ :: _, _ => check_grows.trans checkAll_grows

end

end Scriptlet.Analysis
