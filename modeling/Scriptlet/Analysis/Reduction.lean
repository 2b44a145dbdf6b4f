import Scriptlet.Scope.Table
import Scriptlet.Value.Arithmetic
import Scriptlet.Value.Cast

/-!
The value of an expression under a symbol table. Reducing reads the table and changes nothing;
what it finds is the value, the diagnostics in the order they arise, and the value of every node,
children before parents. Where no value can be found it is `unknown`, and `unknown` operands
cause no further diagnostics.
-/

namespace Scriptlet

structure Reduction where
  value : Value
  diagnostics : List Diagnostic
  notes : List (NodeId × Value)

namespace Reduction

-- The reduction of a node whose parts have been reduced to `parts`.
def ofParts (node : Node) (parts : List Reduction) (value : Value) (own : List Diagnostic) :
    Reduction :=
  ⟨value, parts.flatMap (·.diagnostics) ++ own, parts.flatMap (·.notes) ++ [(node.id, value)]⟩

-- An operation that failed leaves `unknown` and a diagnostic at the start of its node.
def ofOutcome (node : Node) (parts : List Reduction) : Except ValueFailure Value → Reduction
  | .ok value => ofParts node parts value []
  | .error failure => ofParts node parts .unknown [failure.diagnostic node.span.start]

end Reduction

-- What is wrong with a call of `callee` with `count` arguments.
def SymbolTable.callFlaws (t : SymbolTable) (callee : String) (count : Nat) (position : Position) :
    List Diagnostic :=
  match t.function? callee with
  | none => [.undefinedFunction callee position]
  | some f => if f.arity = count then [] else [.arityMismatch callee f.arity count position]

mutual

def Expr.reduce (t : SymbolTable) : Expr → Reduction
  | .literal node written => .ofParts node [] written.value []
  | .identifier node name =>
    match t.lookup? name with
    | some symbol => .ofParts node [] symbol.value []
    | none => .ofParts node [] .unknown [.undeclaredVariable name node.span.start]
  | .call node callee calleeSpan arguments =>
    let flaws := t.callFlaws callee arguments.length calleeSpan.start
    .ofParts node (Expr.reduceAll t arguments) .unknown flaws
  | .list node items =>
    let parts := Expr.reduceAll t items
    .ofParts node parts (.list (parts.map (·.value))) []
  | .binary node op left right =>
    let l := left.reduce t
    let r := right.reduce t
    .ofOutcome node [l, r] (Value.applyBinary op l.value r.value)
  | .unary node op operand =>
    let part := operand.reduce t
    .ofOutcome node [part] (Value.applyUnary op part.value)
  | .cast node target operand =>
    let part := operand.reduce t
    .ofOutcome node [part] (Value.castTo target part.value)
  | .grouping node inner =>
    let part := inner.reduce t
    .ofParts node [part] part.value []

def Expr.reduceAll (t : SymbolTable) : List Expr → List Reduction
  | [] => []
  | e :: es => e.reduce t :: Expr.reduceAll t es

end

end Scriptlet
