import Scriptlet.Proofs.Tree.Names
import Scriptlet.Proofs.Tree.Nodes

/-!
Literals and what they carry. A program can be blanked: every literal that carries something keeps
its kind and loses its payload, and nothing else changes. The payloads themselves stand in a list,
in source order.
-/

namespace Scriptlet

def Literal.blank : Literal → Literal
  | .integer _ => .integer 0
  | .point _ => .point 0
  | .state _ => .state false
  | .text _ => .text ""
  | .empty => .empty

mutual

def Expr.blank : Expr → Expr
  | .literal node written => .literal node written.blank
  | .identifier node name => .identifier node name
  | .call node callee span arguments => .call node callee span (Expr.blankAll arguments)
  | .list node items => .list node (Expr.blankAll items)
  | .binary node op left right => .binary node op left.blank right.blank
  | .unary node op operand => .unary node op operand.blank
  | .cast node target operand => .cast node target operand.blank
  | .grouping node inner => .grouping node inner.blank

def Expr.blankAll : List Expr → List Expr
  | [] => []
  | e :: es => e.blank :: Expr.blankAll es

end

def Declarator.blank (d : Declarator) : Declarator := { d with value := d.value.map Expr.blank }

mutual

def Stmt.blank : Stmt → Stmt
  | .declaration span fixed declarators =>
    .declaration span fixed (declarators.map Declarator.blank)
  | .assignment span name nameSpan op value => .assignment span name nameSpan op value.blank
  | .function span name nameSpan parameters body =>
    .function span name nameSpan parameters (Stmt.blankAll body)
  | .output span value => .output span value.blank
  | .throw span value => .throw span value.blank
  | .expression span value => .expression span value.blank

def Stmt.blankAll : List Stmt → List Stmt
  | [] => []
  | s :: rest => s.blank :: Stmt.blankAll rest

end

namespace Expr

def payload? : Expr → Option Literal
  | .literal _ .empty => none
  | .literal _ written => some written
  | _ => none

-- The literals of an expression that carry something, in source order.
def payloads (e : Expr) : List Literal := e.nodes.filterMap payload?

theorem payloads_eq (e : Expr) :
    e.payloads = e.parts.flatMap payloads ++ e.payload?.toList := by
  unfold payloads
  rw [nodes_eq, List.filterMap_append, List.filterMap_flatMap]
  cases found : e.payload? <;> simp [found]

end Expr

theorem Stmt.blankAll_eq (body : List Stmt) : Stmt.blankAll body = body.map Stmt.blank := by
  induction body with
  | nil => rfl
  | cons s rest ih => rw [Stmt.blankAll, ih, List.map_cons]

theorem Stmt.declared_blank (s : Stmt) : s.blank.declared = s.declared := by
  cases s with
  | declaration span fixed declarators =>
    simp only [Stmt.blank, Stmt.declared, List.map_map]
    rfl
  | _ => rfl

theorem Stmt.assigned_blank (s : Stmt) : s.blank.assigned = s.assigned := by
  cases s <;> rfl

theorem Stmt.blankAll_scope (body : List Stmt) :
    (Stmt.blankAll body).flatMap Stmt.declared = body.flatMap Stmt.declared ∧
      (Stmt.blankAll body).flatMap Stmt.assigned = body.flatMap Stmt.assigned ∧
      (Stmt.blankAll body).isEmpty = body.isEmpty := by
  rw [Stmt.blankAll_eq, List.flatMap_map, List.flatMap_map]
  refine ⟨?_, ?_, List.isEmpty_map⟩
  · exact List.flatMap_congr fun s _ => s.declared_blank
  · exact List.flatMap_congr fun s _ => s.assigned_blank

end Scriptlet
