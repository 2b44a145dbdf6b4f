import Scriptlet.Proofs.Token.Lines
import Scriptlet.Tree.Stmt

namespace Scriptlet

def Node.moved (lines ids : Nat) (n : Node) : Node := ⟨n.id + ids, n.span.down lines⟩

mutual

-- The same expression further down, with greater numbers.
def Expr.moved (lines ids : Nat) : Expr → Expr
  | .literal node value => .literal (node.moved lines ids) value
  | .identifier node name => .identifier (node.moved lines ids) name
  | .call node callee span arguments =>
    .call (node.moved lines ids) callee (span.down lines) (Expr.movedAll lines ids arguments)
  | .list node items => .list (node.moved lines ids) (Expr.movedAll lines ids items)
  | .binary node op left right =>
    .binary (node.moved lines ids) op (left.moved lines ids) (right.moved lines ids)
  | .unary node op operand => .unary (node.moved lines ids) op (operand.moved lines ids)
  | .cast node target operand => .cast (node.moved lines ids) target (operand.moved lines ids)
  | .grouping node inner => .grouping (node.moved lines ids) (inner.moved lines ids)

def Expr.movedAll (lines ids : Nat) : List Expr → List Expr
  | [] => []
  | e :: es => e.moved lines ids :: Expr.movedAll lines ids es

end

def Declarator.moved (lines ids : Nat) (d : Declarator) : Declarator :=
  ⟨d.name, d.value.map (Expr.moved lines ids), d.span.down lines⟩

def Parameter.moved (lines : Nat) (p : Parameter) : Parameter := ⟨p.name, p.span.down lines⟩

mutual

def Stmt.moved (lines ids : Nat) : Stmt → Stmt
  | .declaration span fixed declarators =>
    .declaration (span.down lines) fixed (declarators.map (Declarator.moved lines ids))
  | .assignment span name nameSpan op value =>
    .assignment (span.down lines) name (nameSpan.down lines) op (value.moved lines ids)
  | .function span name nameSpan parameters body =>
    .function (span.down lines) name (nameSpan.down lines)
      (parameters.map (Parameter.moved lines)) (Stmt.movedAll lines ids body)
  | .output span value => .output (span.down lines) (value.moved lines ids)
  | .throw span value => .throw (span.down lines) (value.moved lines ids)
  | .expression span value => .expression (span.down lines) (value.moved lines ids)

def Stmt.movedAll (lines ids : Nat) : List Stmt → List Stmt
  | [] => []
  | s :: rest => s.moved lines ids :: Stmt.movedAll lines ids rest

end

theorem Expr.moved_span (lines ids : Nat) (e : Expr) :
    (e.moved lines ids).span = e.span.down lines := by
  cases e <;> rfl

end Scriptlet
