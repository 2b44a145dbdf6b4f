import Scriptlet.Proofs.Analysis.Actions
import Scriptlet.Proofs.Analysis.Files
import Scriptlet.Proofs.Analysis.Reduced

/-!
The walk of an expression, which takes the analysis along from node to node. It comes to what a
reduction finds under the table of its start, since no node changes the table for the next one.
All it leaves in the analysis are the values and the flaws of its nodes, and a second walk finds
the same again.
-/

namespace Scriptlet.Analysis

variable {a : Analysis} {node : Node} {notes : List (NodeId × Value)} {id : NodeId}

-- Files the value of a node and reports what is wrong with the node itself.
def settle (a : Analysis) (node : Node) (value : Value) (flaws : List Diagnostic) :
    Value × Analysis :=
  (value,
    { a with diagnostics := a.diagnostics ++ flaws, values := a.values.insert node.id value })

def settleOutcome (a : Analysis) (node : Node) : Except ValueFailure Value → Value × Analysis
  | .ok value => a.settle node value []
  | .error failure => a.settle node .unknown [failure.diagnostic node.span.start]

mutual

-- Every node works on the analysis that the nodes before it have left.
def visit (a : Analysis) : Expr → Value × Analysis
  | .literal node written => a.settle node written.value []
  | .identifier node name =>
    match a.symbols.lookup? name with
    | some symbol => a.settle node symbol.value []
    | none => a.settle node .unknown [.undeclaredVariable name node.span.start]
  | .call node callee calleeSpan arguments =>
    let after := (a.visitAll arguments).2
    after.settle node .unknown (after.symbols.callFlaws callee arguments.length calleeSpan.start)
  | .list node items =>
    let walked := a.visitAll items
    walked.2.settle node (.list walked.1) []
  | .binary node op left right =>
    let l := a.visit left
    let r := l.2.visit right
    r.2.settleOutcome node (Value.applyBinary op l.1 r.1)
  | .unary node op operand =>
    let walked := a.visit operand
    walked.2.settleOutcome node (Value.applyUnary op walked.1)
  | .cast node target operand =>
    let walked := a.visit operand
    walked.2.settleOutcome node (Value.castTo target walked.1)
  | .grouping node inner =>
    let walked := a.visit inner
    walked.2.settle node walked.1 []

def visitAll (a : Analysis) : List Expr → List Value × Analysis
  | [] => ([], a)
  | e :: es =>
    let first := a.visit e
    let rest := first.2.visitAll es
    (first.1 :: rest.1, rest.2)

end

theorem foldl_absorb (parts : List Reduction) : parts.foldl absorb a =
    { a with
      diagnostics := a.diagnostics ++ parts.flatMap (·.diagnostics)
      values := note a.values (parts.flatMap (·.notes)) } := by
  induction parts generalizing a with
  | nil => simp [note]
  | cons part parts ih => simp [ih, absorb, note, List.foldl_append]

theorem settle_ofParts (parts : List Reduction) (value : Value) (own : List Diagnostic) :
    (parts.foldl absorb a).settle node value own =
      (value, a.absorb (.ofParts node parts value own)) := by
  rw [foldl_absorb]
  simp [absorb, settle, Reduction.ofParts, note, List.foldl_append]

theorem settleOutcome_ofOutcome (parts : List Reduction) (outcome : Except ValueFailure Value) :
    (parts.foldl absorb a).settleOutcome node outcome =
      ((Reduction.ofOutcome node parts outcome).value,
        a.absorb (.ofOutcome node parts outcome)) := by
  cases outcome with
  | ok value => exact settle_ofParts parts value []
  | error failure => exact settle_ofParts parts .unknown [failure.diagnostic node.span.start]

mutual

theorem visit_eq : ∀ (e : Expr) {a : Analysis},
    a.visit e = ((e.reduce a.symbols).value, a.evaluate e)
  | .literal node written, a => settle_ofParts [] written.value []
  | .identifier node name, a => by
    simp only [visit, evaluate, Expr.reduce]
    cases a.symbols.lookup? name with
    | some symbol => exact settle_ofParts [] symbol.value []
    | none => exact settle_ofParts [] .unknown [.undeclaredVariable name node.span.start]
  | .call node callee calleeSpan arguments, a => by
    have kept : ((Expr.reduceAll a.symbols arguments).foldl absorb a).symbols = a.symbols := by
      rw [foldl_absorb]
    simp only [visit, visitAll_eq arguments, kept]
    exact settle_ofParts _ .unknown _
  | .list node items, a => by
    rw [visit, visitAll_eq items]
    exact settle_ofParts _ _ []
  | .binary node op left right, a => by
    rw [visit, visit_eq left, visit_eq right]
    exact settleOutcome_ofOutcome [left.reduce a.symbols, right.reduce a.symbols] _
  | .unary node op operand, a => by
    rw [visit, visit_eq operand]
    exact settleOutcome_ofOutcome [operand.reduce a.symbols] _
  | .cast node target operand, a => by
    rw [visit, visit_eq operand]
    exact settleOutcome_ofOutcome [operand.reduce a.symbols] _
  | .grouping node inner, a => by
    rw [visit, visit_eq inner]
    exact settle_ofParts [inner.reduce a.symbols] _ []

theorem visitAll_eq : ∀ (es : List Expr) {a : Analysis}, a.visitAll es =
    ((Expr.reduceAll a.symbols es).map (·.value), (Expr.reduceAll a.symbols es).foldl absorb a)
  | [], _ => rfl
  | e :: es, a => by
    rw [visitAll, visit_eq e, visitAll_eq es]
    rfl

end

theorem note_lookup (values : NodeValues) :
    (note values notes)[id]? = (notes.reverse.lookup id).or values[id]? := by
  induction notes generalizing values with
  | nil => rfl
  | cons row rest ih =>
    obtain ⟨number, value⟩ := row
    rw [note, List.foldl_cons, ← note, ih, Std.TreeMap.getElem?_insert, List.reverse_cons,
      List.lookup_append, Option.or_assoc]
    by_cases same : number = id
    · simp [same]
    · have other : (id == number) = false := beq_false_of_ne (Ne.symm same)
      simp [List.lookup_cons, same, other]

theorem note_again (values : NodeValues) :
    (note (note values notes) notes)[id]? = (note values notes)[id]? := by
  rw [note_lookup, note_lookup values]
  cases notes.reverse.lookup id <;> simp

-- Nothing is different after the walk but the values of the nodes and the diagnostics at the end,
-- and a second walk adds the same once more.
structure Isolated (a : Analysis) (e : Expr) (value : Value) (after : Analysis) : Prop where
  symbols : after.symbols = a.symbols
  depth : after.functionDepth = a.functionDepth
  targets : after.targets = a.targets
  values : ∀ id, (∀ n ∈ e.nodes, n.id ≠ id) → after.values[id]? = a.values[id]?
  again : ∃ found second, after.diagnostics = a.diagnostics ++ found ∧
    after.visit e = (value, second) ∧ second.diagnostics = after.diagnostics ++ found ∧
    ∀ id : NodeId, second.values[id]? = after.values[id]?

-- The walk is what an evaluation comes to, and it is isolated, whatever the numbers of the nodes.
theorem evaluate_isolated (a : Analysis) (e : Expr) :
    a.visit e = ((e.reduce a.symbols).value, a.evaluate e) ∧
      Isolated a e (e.reduce a.symbols).value (a.evaluate e) := by
  have values : ∀ id, (∀ n ∈ e.nodes, n.id ≠ id) → (a.evaluate e).values[id]? = a.values[id]? := by
    intro id other
    refine (evaluate_untouched id ?_).1
    rw [← e.nodes_ids]
    intro listed
    obtain ⟨n, inside, same⟩ := List.mem_map.1 listed
    exact other n inside same
  refine ⟨visit_eq e, rfl, rfl, rfl, values, (e.reduce a.symbols).diagnostics,
    (a.evaluate e).evaluate e, rfl, visit_eq e, rfl, fun id => note_again a.values⟩

end Scriptlet.Analysis
