import Scriptlet.Proofs.Analysis.Files
import Scriptlet.Proofs.Scope.Flat
import Scriptlet.Proofs.Simulation.Operator
import Scriptlet.Proofs.Target.Plain

/-!
Lowered expressions. Where the variables of Python agree with a symbol table, the lowered form of
an expression evaluates to an image of the value that the check has found under that table.
-/

namespace Scriptlet

open Target Reduction

variable {a b : Analysis} {t : SymbolTable} {bindings : List Symbol} {env : Env}

-- A reduction that went well and whose values are on file.
structure Filed (a : Analysis) (r : Reduction) : Prop where
  clean : r.diagnostics = []
  noted : ∀ note ∈ r.notes, a.values[note.1]? = some note.2

namespace Filed

variable {node : Node} {parts : List Reduction} {value : Value} {own : List Diagnostic}

theorem part (filed : Filed a (ofParts node parts value own)) (r : Reduction)
    (member : r ∈ parts) : Filed a r := by
  refine ⟨(ofParts_clean.1 filed.clean).1 r member, fun note listed => filed.noted note ?_⟩
  exact List.mem_append_left _ (List.mem_flatMap.2 ⟨r, member, listed⟩)

theorem own_value (filed : Filed a (ofParts node parts value own)) :
    a.values[node.id]? = some value :=
  filed.noted (node.id, value) (by simp [ofParts])

theorem outcome {outcome : Except ValueFailure Value}
    (filed : Filed a (ofOutcome node parts outcome)) :
    ∃ value, outcome = .ok value ∧ Filed a (ofParts node parts value []) := by
  cases outcome with
  | ok value => exact ⟨value, rfl, filed⟩
  | error failure =>
    obtain ⟨value, same⟩ := (ofOutcome_clean.1 filed.clean).2
    cases same

end Filed

theorem Expr.own_note (e : Expr) : (e.id, (e.reduce t).value) ∈ (e.reduce t).notes := by
  have parts : ∀ node parts value own, (node.id, value) ∈ (ofParts node parts value own).notes := by
    simp [ofParts]
  have outcome : ∀ node parts outcome,
      (node.id, (ofOutcome node parts outcome).value) ∈ (ofOutcome node parts outcome).notes := by
    intro node parts outcome
    cases outcome <;> simp [ofOutcome, ofParts]
  cases e with
  | identifier node name =>
    simp only [Expr.reduce]
    split <;> exact parts ..
  | literal | call | list | grouping => exact parts ..
  | binary | unary | cast => exact outcome ..

theorem Filed.tag {e : Expr} (filed : Filed a (e.reduce t)) :
    a.tag? e.id = some (e.reduce t).value.tag := by
  rw [Analysis.tag?, filed.noted _ e.own_note]
  rfl

theorem filed_of_evaluate {e : Expr} (accepted : (b.evaluate e).accepted = true)
    (distinct : e.ids.Nodup)
    (same : ∀ id ∈ e.ids, (b.evaluate e).values[id]? = a.values[id]?) :
    Filed a (e.reduce b.symbols) := by
  refine ⟨(Analysis.evaluate_accepted accepted).2, fun row listed => ?_⟩
  have own : row.1 ∈ e.ids := e.notes_ids (t := b.symbols) ▸ List.mem_map_of_mem listed
  rw [← same row.1 own, Analysis.evaluate_noted distinct listed]

-- The variables of Python hold what the symbols say, and none of them hides a helper.
structure Agrees (bindings : List Symbol) (env : Env) : Prop where
  named : ∀ name symbol, bindings.find? (·.name = name) = some symbol → IsName name
  held : ∀ name symbol, bindings.find? (·.name = name) = some symbol →
    ∃ object, env.lookup (spell name) = some object ∧ Held symbol.value object
  free : env.Free helperNames

-- There is no point on file, nor a list with one inside.
def Pointless (values : NodeValues) : Prop :=
  ∀ (id : NodeId) (v : Value), values[id]? = some v → v.hasPoint = false

-- A plain expression with an image of this value.
structure Evaluates (env : Env) (e : Target.Expr) (v : Value) : Prop where
  plain : e.plain
  outcome : ∃ object, e.eval env = .ok object ∧ Image v object

-- A cast to a point that gives none has been applied to a list or `empty`.
theorem castTo_point {v u : Value} {p : Object} (image : Image v p)
    (outcome : Value.castTo .point v = .ok u) (pointless : u.hasPoint = false) :
    some v.tag = some .list ∨ some v.tag = some .empty := by
  cases image with
  | list => exact .inl rfl
  | empty => exact .inr rfl
  | integer | state => cases outcome; cases pointless
  | text s =>
    cases read : (Value.text s).toPoint? with
    | none => simp only [Value.castTo, read] at outcome; cases outcome
    | some x => simp only [Value.castTo, read] at outcome; cases outcome; cases pointless

mutual

theorem Expr.lower_evaluates (agrees : Agrees bindings env) (pointless : Pointless a.values) :
    ∀ e : Expr, Filed a (e.reduce (.flat bindings)) →
      Evaluates env (e.lower a) (e.reduce (.flat bindings)).value
  | .literal node value, filed => by
    have plain := pointless _ _ filed.own_value
    cases value with
    | integer n => exact ⟨rfl, _, rfl, .integer n⟩
    | point x => cases plain
    | state b => exact ⟨rfl, _, rfl, .state b⟩
    | text s => exact ⟨rfl, _, rfl, .text s⟩
    | empty => exact ⟨rfl, _, rfl, .empty⟩
  | .identifier node name, filed => by
    simp only [Expr.reduce] at filed ⊢
    split at filed
    · rename_i symbol found
      rw [SymbolTable.lookup?_flat] at found
      obtain ⟨object, bound, held⟩ := agrees.held name symbol found
      refine ⟨rfl, object, ?_, held.pointless (pointless _ _ filed.own_value)⟩
      rw [Expr.lower, Target.Expr.eval, bound]
      rfl
    · cases (ofParts_clean.1 filed.clean).2
  | .call node callee calleeSpan arguments, filed => by
    cases (ofParts_clean.1 filed.clean).2
  | .list node items, filed => by
    obtain ⟨plain, objects, evaluated, images⟩ :=
      Expr.lowerAll_evaluates agrees pointless items filed.part
    refine ⟨plain, .list objects, ?_, .list images⟩
    rw [Expr.lower, Target.Expr.eval, evaluated]
    rfl
  | .binary node op left right, filed => by
    obtain ⟨value, outcome, filed⟩ := filed.outcome
    have first := filed.part (left.reduce (.flat bindings)) (by simp)
    have second := filed.part (right.reduce (.flat bindings)) (by simp)
    obtain ⟨plain, object, evaluated, image⟩ := Expr.lower_evaluates agrees pointless left first
    obtain ⟨plain', object', evaluated', image'⟩ :=
      Expr.lower_evaluates agrees pointless right second
    obtain ⟨result, computed, held⟩ :=
      eval_binary agrees.free image image' evaluated evaluated' outcome
    refine ⟨binary_plain plain plain', result, ?_, ?_⟩
    · rw [Expr.lower, first.tag, second.tag, Analysis.tag?, filed.own_value]
      exact computed
    · rw [Expr.reduce, outcome]
      exact held.pointless (pointless _ _ filed.own_value)
  | .unary node op operand, filed => by
    obtain ⟨value, outcome, filed⟩ := filed.outcome
    have inner := filed.part (operand.reduce (.flat bindings)) (by simp)
    obtain ⟨plain, object, evaluated, image⟩ := Expr.lower_evaluates agrees pointless operand inner
    rw [Expr.reduce, outcome]
    cases op with
    | not =>
      refine ⟨condition_plain plain _, ?_⟩
      rw [Expr.lower, inner.tag]
      exact eval_not image evaluated outcome
    | negate => exact ⟨plain, eval_negate image evaluated outcome⟩
  | .cast node target operand, filed => by
    obtain ⟨value, outcome, filed⟩ := filed.outcome
    have inner := filed.part (operand.reduce (.flat bindings)) (by simp)
    obtain ⟨plain, object, evaluated, image⟩ := Expr.lower_evaluates agrees pointless operand inner
    have pointless := pointless _ _ filed.own_value
    rw [Expr.reduce, outcome, Expr.lower, inner.tag]
    refine ⟨cast_plain plain ?_,
      eval_cast agrees.free image evaluated outcome (tag_ne_point pointless)⟩
    rintro rfl
    exact castTo_point image outcome pointless
  | .grouping node inner, filed => by
    obtain ⟨plain, object, evaluated, image⟩ := Expr.lower_evaluates agrees pointless inner
      (filed.part (inner.reduce (.flat bindings)) (by simp))
    exact ⟨plain, object, evaluated, image⟩

theorem Expr.lowerAll_evaluates (agrees : Agrees bindings env) (pointless : Pointless a.values) :
    ∀ es : List Expr, (∀ part ∈ Expr.reduceAll (.flat bindings) es, Filed a part) →
      Target.Expr.plainAll (Expr.lowerAll a es) ∧
      ∃ objects, Target.Expr.evalAll env (Expr.lowerAll a es) = .ok objects ∧
        ImageAll ((Expr.reduceAll (.flat bindings) es).map (·.value)) objects
  | [], _ => ⟨rfl, [], rfl, .nil⟩
  | e :: es, filed => by
    rw [Expr.reduceAll, List.forall_mem_cons] at filed
    obtain ⟨plain, object, first, image⟩ := Expr.lower_evaluates agrees pointless e filed.1
    obtain ⟨plain', objects, rest, images⟩ :=
      Expr.lowerAll_evaluates agrees pointless es filed.2
    refine ⟨Bool.and_eq_true_iff.2 ⟨plain, plain'⟩, object :: objects, ?_, .cons image images⟩
    rw [Expr.lowerAll, Target.Expr.evalAll, first, rest]
    rfl

end

end Scriptlet
