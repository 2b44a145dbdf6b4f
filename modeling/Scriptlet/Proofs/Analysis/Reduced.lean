import Scriptlet.Analysis.Reduction
import Scriptlet.Proofs.Tree.Nodes

/-!
What a reduction finds, node by node. The value of a node and what is wrong with it follow from
the table and from the values of its parts, so a reduction is one list of values and one list of
diagnostics, both in post-order.
-/

namespace Scriptlet

-- What an operation on values comes to: where it fails, the value is not known.
def Value.settled (outcome : Except ValueFailure Value) : Value := outcome.toOption.getD .unknown

def ValueFailure.diagnostic? (position : Position) (outcome : Except ValueFailure Value) :
    Option Diagnostic :=
  match outcome with
  | .ok _ => none
  | .error failure => some (failure.diagnostic position)

-- What is wrong with a call.
def SymbolTable.callFlaw? (t : SymbolTable) (callee : String) (count : Nat) (position : Position) :
    Option Diagnostic :=
  match t.function? callee with
  | none => some (.undefinedFunction callee position)
  | some f => if f.arity = count then none else some (.arityMismatch callee f.arity count position)

namespace Expr

variable {t : SymbolTable} {e n : Expr} {known known' : Expr → Value}

-- The value of a node, from the values of its parts.
def settled (t : SymbolTable) (known : Expr → Value) : Expr → Value
  | .literal _ written => written.value
  | .identifier _ name => (t.lookup? name).elim .unknown (·.value)
  | .call .. => .unknown
  | .list _ items => .list (items.map known)
  | .binary _ op left right => .settled (Value.applyBinary op (known left) (known right))
  | .unary _ op operand => .settled (Value.applyUnary op (known operand))
  | .cast _ target operand => .settled (Value.castTo target (known operand))
  | .grouping _ inner => known inner

-- What is wrong with a node itself, from the values of its parts.
def flaw? (t : SymbolTable) (known : Expr → Value) : Expr → Option Diagnostic
  | .identifier node name =>
    if (t.lookup? name).isSome then none else some (.undeclaredVariable name node.span.start)
  | .call _ callee calleeSpan arguments =>
    t.callFlaw? callee arguments.length calleeSpan.start
  | .binary node op left right =>
    ValueFailure.diagnostic? node.span.start (Value.applyBinary op (known left) (known right))
  | .unary node op operand =>
    ValueFailure.diagnostic? node.span.start (Value.applyUnary op (known operand))
  | .cast node target operand =>
    ValueFailure.diagnostic? node.span.start (Value.castTo target (known operand))
  | .literal .. | .list .. | .grouping .. => none

theorem settled_congr (same : ∀ part ∈ n.parts, known part = known' part) :
    n.settled t known = n.settled t known' := by
  cases n with
  | literal node written | identifier node name => rfl
  | call node callee span arguments => rfl
  | list node items => exact congrArg Value.list (List.map_congr_left same)
  | binary node op left right =>
    rw [settled, settled, same left (by simp [parts]), same right (by simp [parts])]
  | unary node op operand | cast node target operand | grouping node operand =>
    simp only [settled, same operand (by simp [parts])]

theorem flaw?_congr (same : ∀ part ∈ n.parts, known part = known' part) :
    n.flaw? t known = n.flaw? t known' := by
  cases n with
  | binary node op left right =>
    rw [flaw?, flaw?, same left (by simp [parts]), same right (by simp [parts])]
  | unary node op operand | cast node target operand =>
    simp only [flaw?, same operand (by simp [parts])]
  | _ => rfl

-- The value that a reduction gives a node.
def valueIn (t : SymbolTable) (e : Expr) : Value := (e.reduce t).value

theorem reduceAll_eq (es : List Expr) : reduceAll t es = es.map (·.reduce t) := by
  induction es with
  | nil => rfl
  | cons e es ih => rw [reduceAll, ih, List.map_cons]

theorem ofOutcome_eq (node : Node) (parts : List Reduction) (outcome : Except ValueFailure Value) :
    Reduction.ofOutcome node parts outcome = .ofParts node parts (.settled outcome)
      (ValueFailure.diagnostic? node.span.start outcome).toList := by
  cases outcome <;> rfl

theorem callFlaws_eq (callee : String) (count : Nat) (position : Position) :
    t.callFlaws callee count position = (t.callFlaw? callee count position).toList := by
  unfold SymbolTable.callFlaws SymbolTable.callFlaw?
  cases t.function? callee with
  | none => rfl
  | some f => by_cases fits : f.arity = count <;> simp [fits]

theorem reduce_eq (e : Expr) : e.reduce t = .ofParts e.node (e.parts.map (·.reduce t))
    (e.settled t (valueIn t)) (e.flaw? t (valueIn t)).toList := by
  cases e with
  | literal node written => rfl
  | identifier node name =>
    rw [reduce]
    cases found : t.lookup? name <;> simp [settled, flaw?, found, parts, Expr.node]
  | call node callee span arguments => rw [reduce, callFlaws_eq, reduceAll_eq]; rfl
  | list node items => rw [reduce, reduceAll_eq, List.map_map]; rfl
  | binary node op left right => rw [reduce, ofOutcome_eq]; rfl
  | unary node op operand => rw [reduce, ofOutcome_eq]; rfl
  | cast node target operand => rw [reduce, ofOutcome_eq]; rfl
  | grouping node inner => rfl

theorem valueIn_eq (e : Expr) : e.valueIn t = e.settled t (valueIn t) := by
  rw [valueIn, reduce_eq]
  rfl

theorem reduce_notes (e : Expr) :
    (e.reduce t).notes = e.nodes.map fun n => (n.id, n.valueIn t) := by
  induction e using induction_on_parts with
  | whole e ih =>
    have below : (e.parts.map (·.reduce t)).flatMap (·.notes) =
        (e.parts.flatMap nodes).map fun n => (n.id, n.valueIn t) := by
      rw [List.flatMap_map, List.map_flatMap]
      exact List.flatMap_congr ih
    rw [reduce_eq, nodes_eq, List.map_append, ← below, List.map_singleton, e.valueIn_eq]
    rfl

theorem reduce_diagnostics (e : Expr) :
    (e.reduce t).diagnostics = e.nodes.filterMap (flaw? t (valueIn t)) := by
  induction e using induction_on_parts with
  | whole e ih =>
    have below : (e.parts.map (·.reduce t)).flatMap (·.diagnostics) =
        (e.parts.flatMap nodes).filterMap (flaw? t (valueIn t)) := by
      rw [List.flatMap_map, List.filterMap_flatMap]
      exact List.flatMap_congr ih
    rw [reduce_eq, nodes_eq, List.filterMap_append, ← below]
    cases flaw : e.flaw? t (valueIn t) <;> simp [Reduction.ofParts, flaw]

end Expr

end Scriptlet
