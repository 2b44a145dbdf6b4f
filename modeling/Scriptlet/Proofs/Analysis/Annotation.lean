import Scriptlet.Compile
import Scriptlet.Proofs.Analysis.Files
import Scriptlet.Proofs.Analysis.Growth
import Scriptlet.Proofs.Analysis.Reduced
import Scriptlet.Proofs.Outcome

/-!
What a finished check has on file for a program. Every node has the value that follows from the
values on file for its parts and from the table at the time its expression was evaluated, whether
or not the program was accepted. The diagnostics of an expression are the flaws of its nodes, in
post-order, seen with the values on file.
-/

namespace Scriptlet

-- An expression together with the state in which a check evaluates it.
structure Evaluation where
  state : Analysis
  value : Expr
  -- The variable, if a compound assignment has the expression on its right.
  target : Option String

namespace Analysis

-- The first values of a declaration, each evaluated after the names before it are declared.
def firstValues (fixed : Bool) (a : Analysis) : List Declarator → List Evaluation
  | [] => []
  | d :: rest =>
    (d.value.map fun e => ⟨a, e, none⟩).toList ++ firstValues fixed (checkDeclarator fixed a d) rest

mutual

-- The evaluations that a check of a statement makes, in order.
def evaluations (a : Analysis) : Stmt → List Evaluation
  | .declaration _ fixed declarators => firstValues fixed a declarators
  | .assignment _ _ _ .assign value => [⟨a, value, none⟩]
  | .assignment _ name _ (.compound _) value => [⟨a, value, some name⟩]
  | .function _ name nameSpan parameters body =>
    evaluationsAll true (a.opened name nameSpan.start parameters) body
  | .output _ value | .throw _ value | .expression _ value => [⟨a, value, none⟩]

def evaluationsAll (inFunction : Bool) (a : Analysis) : List Stmt → List Evaluation
  | [] => []
  | s :: rest => evaluations a s ++ evaluationsAll inFunction (a.check inFunction s) rest

end

-- The value on file for a node.
def recorded (a : Analysis) (e : Expr) : Value := a.values[e.id]?.getD .unknown

end Analysis

namespace Evaluation

-- The value of every node is on file. The evaluation has added the flaws of the nodes to the
-- diagnostics, and they are still there.
structure Recorded (v : Evaluation) (final : Analysis) : Prop where
  values : ∀ n ∈ v.value.nodes,
    final.values[n.id]? = some (n.settled v.state.symbols final.recorded)
  diagnostics : (v.state.evaluate v.value).diagnostics = v.state.diagnostics ++
    v.value.nodes.filterMap (Expr.flaw? v.state.symbols final.recorded)
  kept : (v.state.evaluate v.value).diagnostics <+: final.diagnostics

-- The expression is the right side of a compound assignment to a variable that may change.
def Updates (v : Evaluation) : Prop :=
  ∃ name symbol, v.target = some name ∧ v.state.symbols.lookup? name = some symbol ∧
    symbol.fixed = false

end Evaluation

namespace Analysis

variable {a b final : Analysis} {e : Expr} {id : NodeId}

mutual

theorem evaluations_roots : ∀ {s : Stmt} {a : Analysis},
    (a.evaluations s).map (·.value) = s.roots
  | .declaration _ fixed declarators, a => by
    rw [evaluations, Stmt.roots]
    induction declarators generalizing a with
    | nil => rfl
    | cons d rest ih => cases value : d.value <;> simp [firstValues, value, ih]
  | .assignment _ _ _ .assign value, _ => rfl
  | .assignment _ _ _ (.compound _) value, _ => rfl
  | .function _ _ _ _ body, _ => evaluationsAll_roots
  | .output .., _ | .throw .., _ | .expression .., _ => rfl

theorem evaluationsAll_roots {inFunction : Bool} : ∀ {body : List Stmt} {a : Analysis},
    (a.evaluationsAll inFunction body).map (·.value) = Stmt.rootsAll body
  | [], _ => rfl
  | s :: rest, a => by
    rw [evaluationsAll, List.map_append, evaluations_roots, evaluationsAll_roots]
    rfl

end

-- What is on file in the end, if the state `b` after an evaluation has kept its values and
-- nothing has been filed in their place since.
theorem evaluate_filed (distinct : e.ids.Nodup) (kept : b.values = (a.evaluate e).values)
    (same : SameFiles final b e.ids) :
    ∀ n ∈ e.nodes, final.values[n.id]? = some (n.valueIn a.symbols) := by
  intro n inside
  have listed : (n.id, n.valueIn a.symbols) ∈ (e.reduce a.symbols).notes := by
    rw [e.reduce_notes]
    exact List.mem_map.2 ⟨n, inside, rfl⟩
  have numbered : n.id ∈ e.ids := by
    rw [← e.nodes_ids]
    exact List.mem_map.2 ⟨n, inside, rfl⟩
  rw [← (same n.id numbered).1, kept]
  exact evaluate_noted distinct listed

theorem evaluate_recorded {target : Option String} (distinct : e.ids.Nodup)
    (kept : b.values = (a.evaluate e).values)
    (followed : (a.evaluate e).diagnostics <+: b.diagnostics) (same : SameFiles final b e.ids)
    (grown : b.diagnostics <+: final.diagnostics) :
    (Evaluation.mk a e target).Recorded final := by
  have filed := evaluate_filed distinct kept same
  have known : ∀ n ∈ e.nodes, ∀ part ∈ n.parts,
      part.valueIn a.symbols = final.recorded part := by
    intro n inside part below
    rw [recorded, filed part (Expr.parts_mem_nodes inside below)]
    rfl
  refine ⟨fun n inside => ?_, ?_, followed.trans grown⟩
  · rw [filed n inside, n.valueIn_eq, Expr.settled_congr (known n inside)]
  · have flaws : (e.reduce a.symbols).diagnostics =
        e.nodes.filterMap (Expr.flaw? a.symbols final.recorded) := by
      rw [e.reduce_diagnostics]
      exact List.filterMap_congr fun n inside => Expr.flaw?_congr (known n inside)
    rw [← flaws]
    rfl

theorem checkDeclarator_some {fixed : Bool} {d : Declarator} (value : d.value = some e) :
    (checkDeclarator fixed a d).values = (a.evaluate e).values ∧
      (a.evaluate e).diagnostics <+: (checkDeclarator fixed a d).diagnostics := by
  unfold checkDeclarator
  simp only [value]
  exact ⟨declare_files.1, declare_grows⟩

theorem firstValues_recorded {fixed : Bool} {declarators : List Declarator}
    (distinct : (declarators.flatMap Declarator.ids).Nodup)
    (same : SameFiles final (declarators.foldl (checkDeclarator fixed) a)
      (declarators.flatMap Declarator.ids))
    (grown : (declarators.foldl (checkDeclarator fixed) a).diagnostics <+: final.diagnostics) :
    ∀ v ∈ a.firstValues fixed declarators, v.Recorded final := by
  induction declarators generalizing a with
  | nil => intro v listed; cases listed
  | cons d rest ih =>
    have each : ∀ a d, Untouched a (checkDeclarator fixed a d) d.ids :=
      fun _ _ => checkDeclarator_untouched
    rw [List.flatMap_cons, List.nodup_append] at distinct
    rw [List.flatMap_cons] at same
    intro v listed
    rcases List.mem_append.1 listed with here | later
    · have first := same.before (foldl_untouched each rest)
        fun id listed later => distinct.2.2 id listed id later rfl
      have begun : (checkDeclarator fixed a d).diagnostics <+: final.diagnostics :=
        (foldl_grows fun _ _ => checkDeclarator_grows).trans grown
      cases value : d.value with
      | none => simp [value] at here
      | some e =>
        simp only [value, Option.map_some, Option.toList_some, List.mem_singleton] at here
        subst here
        have numbers : d.ids = e.ids := by rw [Declarator.ids, value, Option.elim_some]
        rw [numbers] at first distinct
        obtain ⟨kept, followed⟩ := checkDeclarator_some value
        exact evaluate_recorded distinct.1 kept followed first begun
    · have second : SameFiles final _ (rest.flatMap Declarator.ids) :=
        fun id listed => same id (List.mem_append_right _ listed)
      exact ih distinct.2.1 second grown v later

theorem checkAssignment_values {name : String} {position : Position} {op : AssignOp} :
    (a.checkAssignment name position op e).values = (a.evaluate e).values := by
  unfold checkAssignment
  dsimp only
  split
  · rfl
  · split
    · rfl
    · cases op <;> rfl

theorem checkThrow_kept {inFunction : Bool} {span : Span} :
    (a.check inFunction (.throw span e)).values = (a.evaluate e).values ∧
      (a.evaluate e).diagnostics <+: (a.check inFunction (.throw span e)).diagnostics := by
  rw [check]
  split
  · exact ⟨rfl, List.prefix_rfl⟩
  · exact ⟨rfl, report_grows⟩

mutual

theorem check_recorded {inFunction : Bool} : ∀ {s : Stmt} {a : Analysis}, s.ids.Nodup →
    SameFiles final (a.check inFunction s) s.ids →
    (a.check inFunction s).diagnostics <+: final.diagnostics →
    ∀ v ∈ a.evaluations s, v.Recorded final
  | .declaration .., _, distinct, same, grown => firstValues_recorded distinct same grown
  | .assignment _ _ _ .assign _, _, distinct, same, grown =>
    List.forall_mem_singleton.2
      (evaluate_recorded distinct checkAssignment_values checkAssignment_grows same grown)
  | .assignment _ _ _ (.compound _) _, _, distinct, same, grown =>
    List.forall_mem_singleton.2
      (evaluate_recorded distinct checkAssignment_values checkAssignment_grows same grown)
  | .function _ _ _ _ body, _, distinct, same, grown => by
    rw [check_function] at same grown
    exact checkAll_recorded distinct same grown
  | .throw .., _, distinct, same, grown =>
    List.forall_mem_singleton.2
      (evaluate_recorded distinct checkThrow_kept.1 checkThrow_kept.2 same grown)
  | .output .., _, distinct, same, grown =>
    List.forall_mem_singleton.2 (evaluate_recorded distinct rfl List.prefix_rfl same grown)
  | .expression .., _, distinct, same, grown =>
    List.forall_mem_singleton.2 (evaluate_recorded distinct rfl List.prefix_rfl same grown)

theorem checkAll_recorded {inFunction : Bool} : ∀ {body : List Stmt} {a : Analysis},
    (Stmt.idsAll body).Nodup →
    SameFiles final (a.checkAll inFunction body) (Stmt.idsAll body) →
    (a.checkAll inFunction body).diagnostics <+: final.diagnostics →
    ∀ v ∈ a.evaluationsAll inFunction body, v.Recorded final
  | [], _, _, _, _ => List.forall_mem_nil _
  | s :: rest, a, distinct, same, grown => by
    rw [Stmt.idsAll, List.nodup_append] at distinct
    have first := same.before checkAll_untouched
      fun id listed later => distinct.2.2 id listed id later rfl
    refine List.forall_mem_append.2 ⟨?_, ?_⟩
    · exact check_recorded distinct.1 first (checkAll_grows.trans grown)
    · exact checkAll_recorded distinct.2.1
        (fun id listed => same id (List.mem_append_right _ listed)) grown

end

theorem foldl_targets {α : Type} {step : Analysis → α → Analysis}
    (each : ∀ a x, (step a x).targets = a.targets) (xs : List α) :
    (xs.foldl step a).targets = a.targets := by
  induction xs generalizing a with
  | nil => rfl
  | cons x xs ih => exact ih.trans (each a x)

theorem checkDeclarator_targets {fixed : Bool} (a : Analysis) (d : Declarator) :
    (checkDeclarator fixed a d).targets = a.targets := by
  unfold checkDeclarator
  dsimp only
  split <;> exact declare_files.2

theorem opened_targets {name : String} {position : Position} {parameters : List Parameter} :
    (a.opened name position parameters).targets = a.targets :=
  (foldl_targets (fun _ _ => declare_files.2) parameters).trans register_files.2

theorem firstValues_plain {fixed : Bool} {declarators : List Declarator} :
    ∀ v ∈ a.firstValues fixed declarators, v.target = none := by
  induction declarators generalizing a with
  | nil => exact List.forall_mem_nil _
  | cons d rest ih =>
    refine List.forall_mem_append.2 ⟨?_, ih⟩
    cases d.value with
    | none => simp
    | some e => simp

theorem targets_plain {vs : List Evaluation} (same : b.targets = a.targets)
    (plain : ∀ v ∈ vs, v.target = none) :
    id ∈ b.targets ↔ id ∈ a.targets ∨ ∃ v ∈ vs, v.value.id = id ∧ v.Updates := by
  rw [same]
  refine ⟨.inl, ?_⟩
  rintro (old | ⟨v, listed, -, name, symbol, target, -⟩)
  · exact old
  · cases (plain v listed).symm.trans target

theorem checkAssign_targets {name : String} {position : Position} :
    (a.checkAssignment name position .assign e).targets = a.targets := by
  unfold checkAssignment
  dsimp only
  split
  · rfl
  · split <;> rfl

theorem checkCompound_targets {name : String} {position : Position} {op : Arithmetic} :
    id ∈ (a.checkAssignment name position (.compound op) e).targets ↔
      id ∈ a.targets ∨ e.id = id ∧ (Evaluation.mk a e (some name)).Updates := by
  have updates : (Evaluation.mk a e (some name)).Updates ↔
      ∃ symbol, a.symbols.lookup? name = some symbol ∧ symbol.fixed = false := by
    simp [Evaluation.Updates]
  rw [updates]
  unfold checkAssignment
  dsimp only
  cases found : a.symbols.lookup? name with
  | none => simp [report, evaluate, absorb]
  | some symbol =>
    cases changeable : symbol.fixed with
    | true => simp [changeable, report, evaluate, absorb]
    | false =>
      simp only [changeable, Bool.false_eq_true, reduceIte]
      exact Std.TreeMap.mem_insert.trans (by simp [evaluate, absorb, or_comm, changeable])

mutual

theorem check_targets {inFunction : Bool} : ∀ {s : Stmt} {a : Analysis},
    id ∈ (a.check inFunction s).targets ↔
      id ∈ a.targets ∨ ∃ v ∈ a.evaluations s, v.value.id = id ∧ v.Updates
  | .declaration _ _ declarators, _ =>
    targets_plain (foldl_targets checkDeclarator_targets declarators) firstValues_plain
  | .assignment _ _ _ .assign _, _ => targets_plain checkAssign_targets (by simp [evaluations])
  | .assignment _ _ _ (.compound _) _, _ => by
    rw [check, checkCompound_targets, evaluations]
    simp only [List.mem_singleton, exists_eq_left]
  | .function _ _ _ _ body, _ => by
    rw [check_function]
    exact checkAll_targets.trans (by rw [opened_targets, evaluations])
  | .throw .., _ => by
    refine targets_plain ?_ (by simp [evaluations])
    rw [check]
    split <;> rfl
  | .output .., _ => targets_plain rfl (by simp [evaluations])
  | .expression .., _ => targets_plain rfl (by simp [evaluations])

theorem checkAll_targets {inFunction : Bool} : ∀ {body : List Stmt} {a : Analysis},
    id ∈ (a.checkAll inFunction body).targets ↔
      id ∈ a.targets ∨ ∃ v ∈ a.evaluationsAll inFunction body, v.value.id = id ∧ v.Updates
  | [], _ => by simp [checkAll, evaluationsAll]
  | s :: rest, a => by
    rw [checkAll, checkAll_targets, check_targets, evaluationsAll, or_assoc]
    simp only [List.mem_append, or_and_right, exists_or]

end

end Analysis

-- What an analysis has on file for a program, and what it says about each evaluation in the check
-- of that program.
structure Annotates (program : Program) (analysis : Analysis) : Prop where
  -- Exactly the nodes have values.
  keys : ∀ id, id ∈ analysis.values ↔ id ∈ Stmt.idsAll program.body
  -- Every expression is evaluated once, in order.
  evaluated : (Analysis.empty.evaluationsAll false program.body).map (·.value) =
    Stmt.rootsAll program.body
  recorded : ∀ v ∈ Analysis.empty.evaluationsAll false program.body, v.Recorded analysis
  -- Exactly the right sides of compound assignments to changeable variables have targets.
  targets : ∀ id, id ∈ analysis.targets ↔
    ∃ v ∈ Analysis.empty.evaluationsAll false program.body, v.value.id = id ∧ v.Updates

theorem Analysis.mem_values_of_root {body : List Stmt} {final : Analysis}
    (recorded : ∀ v ∈ Analysis.empty.evaluationsAll false body, v.Recorded final) {id : NodeId}
    (listed : id ∈ Stmt.idsAll body) : id ∈ final.values := by
  rw [Stmt.idsAll_roots] at listed
  obtain ⟨root, stands, numbered⟩ := List.mem_flatMap.1 listed
  have roots : (empty.evaluationsAll false body).map (·.value) = Stmt.rootsAll body :=
    evaluationsAll_roots
  rw [← roots] at stands
  obtain ⟨v, made, rfl⟩ := List.mem_map.1 stands
  rw [← v.value.nodes_ids] at numbered
  obtain ⟨n, inside, rfl⟩ := List.mem_map.1 numbered
  exact Std.TreeMap.mem_iff_isSome_getElem?.2 (by rw [(recorded v made).values n inside]; rfl)

theorem check_annotates {source : String} {program : Program} {analysis : Analysis}
    (checked : check source = .ok (program, analysis)) : Annotates program analysis := by
  obtain ⟨read, rfl⟩ := check_eq_ok.1 checked
  have distinct : (Stmt.idsAll program.body).Nodup :=
    (ofSource_numbered read).imp Nat.ne_of_lt
  have recorded : ∀ v ∈ Analysis.empty.evaluationsAll false program.body,
      v.Recorded (.ofProgram program) :=
    Analysis.checkAll_recorded distinct .refl List.prefix_rfl
  refine ⟨fun id => ⟨fun filed => ?_, Analysis.mem_values_of_root recorded⟩,
    Analysis.evaluationsAll_roots, recorded, fun id => ?_⟩
  · by_contra unlisted
    have untouched : Analysis.Untouched .empty (.ofProgram program) (Stmt.idsAll program.body) :=
      Analysis.checkAll_untouched
    rw [Std.TreeMap.mem_iff_isSome_getElem?, (untouched id unlisted).1] at filed
    simp [Analysis.empty] at filed
  · rw [Analysis.ofProgram, Analysis.checkAll_targets]
    simp [Analysis.empty]

-- A program that is not accepted, with flaws inside and outside a function.
def flawedSource : String :=
  "var x = 1, y = [x, nope]; func f(n) { x += n / 0; n *= f(); } fixed z = ~\"a\"; z -= 1; x %= 2;"

theorem flawedSource_annotates : ∃ program analysis,
    check flawedSource = .ok (program, analysis) ∧ analysis.accepted = false ∧
      analysis.targets.size = 3 ∧ Annotates program analysis := by
  have found : ((check flawedSource).toOption.any fun result =>
      !result.2.accepted && decide (result.2.targets.size = 3)) = true := by decide +kernel
  obtain ⟨⟨program, analysis⟩, checked, holds⟩ := ok_of_any found
  obtain ⟨rejected, filed⟩ := Bool.and_eq_true_iff.1 holds
  exact ⟨program, analysis, checked, by simpa using rejected, of_decide_eq_true filed,
    check_annotates checked⟩

end Scriptlet
