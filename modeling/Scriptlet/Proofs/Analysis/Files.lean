import Scriptlet.Proofs.Analysis.Accepted
import Scriptlet.Proofs.Grammar.Numbering

/-!
What an analysis keeps on file. A step writes under the numbers of its own nodes only, so what it
has filed stays as it is when the nodes of later steps have other numbers.
-/

namespace Scriptlet

open Reduction

mutual

theorem Expr.notes_ids {t : SymbolTable} : ∀ e : Expr, (e.reduce t).notes.map (·.1) = e.ids
  | .literal _ _ => rfl
  | .identifier node name => by
    simp only [Expr.reduce]
    split <;> rfl
  | .call node _ _ items => by
    simp [Expr.reduce, ofParts, Expr.ids, List.map_flatMap, Expr.notes_idsAll items]
  | .list node items => by
    simp [Expr.reduce, ofParts, Expr.ids, List.map_flatMap, Expr.notes_idsAll items]
  | .binary node op left right => by
    simp only [Expr.reduce]
    cases Value.applyBinary op (left.reduce t).value (right.reduce t).value <;>
      simp [ofOutcome, ofParts, Expr.ids, left.notes_ids, right.notes_ids]
  | .unary node op operand => by
    simp only [Expr.reduce]
    cases Value.applyUnary op (operand.reduce t).value <;>
      simp [ofOutcome, ofParts, Expr.ids, operand.notes_ids]
  | .cast node target operand => by
    simp only [Expr.reduce]
    cases Value.castTo target (operand.reduce t).value <;>
      simp [ofOutcome, ofParts, Expr.ids, operand.notes_ids]
  | .grouping node inner => by simp [Expr.reduce, ofParts, Expr.ids, inner.notes_ids]

theorem Expr.notes_idsAll {t : SymbolTable} : ∀ es : List Expr,
    (Expr.reduceAll t es).flatMap (fun part => part.notes.map (·.1)) = Expr.idsAll es
  | [] => rfl
  | e :: es => by
    rw [Expr.reduceAll, List.flatMap_cons, Expr.idsAll, e.notes_ids, Expr.notes_idsAll es]

end

theorem Expr.id_mem_ids (e : Expr) : e.id ∈ e.ids := by
  cases e <;> simp [Expr.id, Expr.node, Expr.ids]

namespace Analysis

variable {a b c : Analysis} {e : Expr} {values : NodeValues} {notes : List (NodeId × Value)}
  {id : NodeId} {ids ids' : List NodeId}

theorem note_other (unlisted : id ∉ notes.map (·.1)) : (note values notes)[id]? = values[id]? := by
  induction notes generalizing values with
  | nil => rfl
  | cons row rest ih =>
    rw [List.map_cons, List.mem_cons, not_or] at unlisted
    rw [note, List.foldl_cons, ← note, ih unlisted.2, Std.TreeMap.getElem?_insert,
      if_neg (by simpa using Ne.symm unlisted.1)]

theorem note_own (distinct : (notes.map (·.1)).Nodup) {value : Value}
    (listed : (id, value) ∈ notes) :
    (note values notes)[id]? = some value := by
  induction notes generalizing values with
  | nil => cases listed
  | cons row rest ih =>
    rw [List.map_cons, List.nodup_cons] at distinct
    rw [note, List.foldl_cons, ← note]
    rcases List.mem_cons.1 listed with rfl | later
    · rw [note_other distinct.1]
      simp
    · exact ih distinct.2 later

-- Outside these numbers the files have not changed.
def Untouched (a b : Analysis) (ids : List NodeId) : Prop :=
  ∀ id, id ∉ ids → b.values[id]? = a.values[id]? ∧ b.targets[id]? = a.targets[id]?

-- Under these numbers the two have the same on file.
def SameFiles (a b : Analysis) (ids : List NodeId) : Prop :=
  ∀ id ∈ ids, b.values[id]? = a.values[id]? ∧ b.targets[id]? = a.targets[id]?

theorem SameFiles.refl : SameFiles a a ids := fun _ _ => ⟨rfl, rfl⟩

theorem Untouched.refl : Untouched a a [] := fun _ _ => ⟨rfl, rfl⟩

theorem Untouched.trans (first : Untouched a b ids) (second : Untouched b c ids') :
    Untouched a c (ids ++ ids') := by
  intro id unlisted
  rw [List.mem_append, not_or] at unlisted
  obtain ⟨values, targets⟩ := second id unlisted.2
  obtain ⟨values', targets'⟩ := first id unlisted.1
  exact ⟨values.trans values', targets.trans targets'⟩

theorem SameFiles.before (same : SameFiles a c (ids ++ ids')) (untouched : Untouched b c ids')
    (apart : ∀ id ∈ ids, id ∉ ids') : SameFiles a b ids := by
  intro id listed
  obtain ⟨values, targets⟩ := same id (List.mem_append_left _ listed)
  obtain ⟨values', targets'⟩ := untouched id (apart id listed)
  exact ⟨values'.symm.trans values, targets'.symm.trans targets⟩

theorem evaluate_untouched : Untouched a (a.evaluate e) e.ids := by
  intro id unlisted
  rw [← e.notes_ids (t := a.symbols)] at unlisted
  exact ⟨note_other unlisted, rfl⟩

theorem Untouched.keep (untouched : Untouched a b ids) (values : c.values = b.values)
    (targets : c.targets = b.targets) : Untouched a c ids := by
  unfold Untouched
  rw [values, targets]
  exact untouched

theorem declare_files {name : String} {fixed : Bool} {position : Position} {repeated : Diagnostic}
    {value : Value} : (a.declare name fixed position repeated value).values = a.values ∧
      (a.declare name fixed position repeated value).targets = a.targets := by
  unfold declare
  split
  · exact ⟨rfl, rfl⟩
  · split <;> exact ⟨rfl, rfl⟩

theorem declare_untouched {name : String} {fixed : Bool} {position : Position}
    {repeated : Diagnostic} {value : Value} (untouched : Untouched a b ids) :
    Untouched a (b.declare name fixed position repeated value) ids :=
  untouched.keep declare_files.1 declare_files.2

theorem checkDeclarator_untouched {fixed : Bool} {d : Declarator} :
    Untouched a (checkDeclarator fixed a d) d.ids := by
  unfold checkDeclarator Declarator.ids
  dsimp only
  cases d.value with
  | none => exact declare_untouched .refl
  | some e => exact declare_untouched evaluate_untouched

theorem checkAssignment_untouched {name : String} {position : Position} {op : AssignOp} :
    Untouched a (a.checkAssignment name position op e) e.ids := by
  unfold checkAssignment
  dsimp only
  split
  · exact evaluate_untouched.keep rfl rfl
  · split
    · exact evaluate_untouched.keep rfl rfl
    · cases op with
      | assign => exact evaluate_untouched.keep rfl rfl
      | compound op =>
        -- The old value of the variable stands under the number of the operand.
        intro id unlisted
        refine ⟨(evaluate_untouched id unlisted).1, ?_⟩
        have other : e.id ≠ id := fun same => unlisted (same ▸ e.id_mem_ids)
        exact (Std.TreeMap.getElem?_insert ..).trans (if_neg (by simpa using other))

theorem foldl_untouched {α : Type} {step : Analysis → α → Analysis} {numbers : α → List NodeId}
    (each : ∀ a x, Untouched a (step a x) (numbers x)) (xs : List α) :
    Untouched a (xs.foldl step a) (xs.flatMap numbers) := by
  induction xs generalizing a with
  | nil => exact .refl
  | cons x xs ih => exact (each a x).trans ih

theorem register_files {name : String} {parameters : List String} {position : Position} :
    (a.register name parameters position).values = a.values ∧
      (a.register name parameters position).targets = a.targets := by
  unfold register
  split
  · exact ⟨rfl, rfl⟩
  · split
    · exact ⟨rfl, rfl⟩
    · split <;> exact ⟨rfl, rfl⟩

mutual

theorem check_untouched {inFunction : Bool} : ∀ {s : Stmt} {a : Analysis},
    Untouched a (a.check inFunction s) s.ids
  | .declaration _ fixed declarators, a => by
    have each : ∀ a d, Untouched a (checkDeclarator fixed a d) d.ids :=
      fun _ _ => checkDeclarator_untouched
    exact foldl_untouched each declarators
  | .assignment .., _ => checkAssignment_untouched
  | .function _ name nameSpan parameters body, a => by
    let entered := (a.register name (parameters.map (·.name)) nameSpan.start).enter
    have registered : Untouched a entered [] :=
      Untouched.refl.keep register_files.1 register_files.2
    have each : ∀ a p, Untouched a (checkParameter name a p) [] :=
      fun _ _ => declare_untouched .refl
    have declared : Untouched entered (parameters.foldl (checkParameter name) entered) [] := by
      have none : parameters.flatMap (fun _ => []) = ([] : List NodeId) := by simp
      exact none ▸ foldl_untouched each parameters
    exact ((registered.trans declared).trans checkAll_untouched).keep rfl rfl
  | .output .., _ => evaluate_untouched
  | .throw _ value, _ => by
    simp only [check]
    split
    · exact evaluate_untouched
    · exact evaluate_untouched.keep rfl rfl
  | .expression .., _ => evaluate_untouched

theorem checkAll_untouched {inFunction : Bool} : ∀ {body : List Stmt} {a : Analysis},
    Untouched a (a.checkAll inFunction body) (Stmt.idsAll body)
  | [], _ => .refl
  | _ :: _, _ => check_untouched.trans checkAll_untouched

end

theorem evaluate_noted (distinct : e.ids.Nodup) {row : NodeId × Value}
    (listed : row ∈ (e.reduce a.symbols).notes) : (a.evaluate e).values[row.1]? = some row.2 := by
  rw [← e.notes_ids (t := a.symbols)] at distinct
  exact note_own distinct listed

end Analysis

end Scriptlet
