import Mathlib.Data.List.Basic
import Scriptlet.Proofs.Grammar.Numbering

/-!
The nodes of a tree. An expression has its nodes in post-order: the nodes of its parts, part by
part, and then itself. A program has those of the expressions that stand in its statements.
-/

namespace Scriptlet

mutual

-- The expression and everything inside it, parts before the whole.
def Expr.nodes : Expr → List Expr
  | .literal node value => [.literal node value]
  | .identifier node name => [.identifier node name]
  | .call node callee calleeSpan arguments =>
    Expr.nodesAll arguments ++ [.call node callee calleeSpan arguments]
  | .list node items => Expr.nodesAll items ++ [.list node items]
  | .binary node op left right => left.nodes ++ right.nodes ++ [.binary node op left right]
  | .unary node op operand => operand.nodes ++ [.unary node op operand]
  | .cast node target operand => operand.nodes ++ [.cast node target operand]
  | .grouping node inner => inner.nodes ++ [.grouping node inner]

def Expr.nodesAll : List Expr → List Expr
  | [] => []
  | e :: es => e.nodes ++ Expr.nodesAll es

end

-- The expressions directly below.
def Expr.parts : Expr → List Expr
  | .literal _ _ | .identifier _ _ => []
  | .call _ _ _ items | .list _ items => items
  | .binary _ _ left right => [left, right]
  | .unary _ _ inner | .cast _ _ inner | .grouping _ inner => [inner]

def Expr.isCall : Expr → Bool
  | .call .. => true
  | _ => false

namespace Expr

theorem nodesAll_eq (es : List Expr) : nodesAll es = es.flatMap nodes := by
  induction es with
  | nil => rfl
  | cons e es ih => rw [nodesAll, ih, List.flatMap_cons]

theorem nodes_eq (e : Expr) : e.nodes = e.parts.flatMap nodes ++ [e] := by
  cases e <;> simp [nodes, parts, nodesAll_eq]

theorem self_mem_nodes (e : Expr) : e ∈ e.nodes := by
  rw [nodes_eq]
  exact List.mem_append_right _ (List.mem_singleton.2 rfl)

theorem mem_nodes_of_part {e part n : Expr} (below : part ∈ e.parts) (inside : n ∈ part.nodes) :
    n ∈ e.nodes := by
  rw [nodes_eq]
  exact List.mem_append_left _ (List.mem_flatMap.2 ⟨part, below, inside⟩)

theorem sizeOf_part_lt {e part : Expr} (below : part ∈ e.parts) : sizeOf part < sizeOf e := by
  cases e with
  | literal node value | identifier node name => cases below
  | call node callee span items | list node items =>
    have smaller : sizeOf part < sizeOf items := List.sizeOf_lt_of_mem below
    simp only [Expr.call.sizeOf_spec, Expr.list.sizeOf_spec]
    omega
  | binary node op left right =>
    rcases List.mem_cons.1 below with rfl | below
    · simp only [Expr.binary.sizeOf_spec]
      omega
    · cases List.mem_singleton.1 below
      simp only [Expr.binary.sizeOf_spec]
      omega
  | unary node op inner | cast node target inner | grouping node inner =>
    cases List.mem_singleton.1 below
    simp only [Expr.unary.sizeOf_spec, Expr.cast.sizeOf_spec, Expr.grouping.sizeOf_spec]
    omega

-- What holds of an expression whenever it holds of its parts holds of every expression.
theorem induction_on_parts {holds : Expr → Prop}
    (whole : ∀ e : Expr, (∀ part ∈ e.parts, holds part) → holds e) (e : Expr) : holds e :=
  whole e fun part below =>
    have := sizeOf_part_lt below
    induction_on_parts whole part
termination_by sizeOf e

theorem parts_mem_nodes {e n part : Expr} (inside : n ∈ e.nodes) (below : part ∈ n.parts) :
    part ∈ e.nodes := by
  induction e using induction_on_parts with
  | whole e ih =>
    rw [nodes_eq] at inside
    rcases List.mem_append.1 inside with deeper | here
    · obtain ⟨other, listed, inside⟩ := List.mem_flatMap.1 deeper
      exact mem_nodes_of_part listed (ih other listed inside)
    · cases List.mem_singleton.1 here
      exact mem_nodes_of_part below part.self_mem_nodes

theorem ids_eq (e : Expr) : e.ids = e.parts.flatMap ids ++ [e.id] := by
  have all : ∀ es : List Expr, idsAll es = es.flatMap ids := by
    intro es
    induction es with
    | nil => rfl
    | cons e es ih => rw [idsAll, ih, List.flatMap_cons]
  cases e <;> simp [ids, parts, all, Expr.id, Expr.node]

theorem nodes_ids (e : Expr) : e.nodes.map Expr.id = e.ids := by
  induction e using induction_on_parts with
  | whole e ih =>
    rw [nodes_eq, ids_eq, List.map_append, List.map_flatMap, List.flatMap_congr ih]
    rfl

end Expr

mutual

-- The expressions that stand in a statement, in order; those in the body of a function count.
def Stmt.roots : Stmt → List Expr
  | .declaration _ _ declarators => declarators.filterMap (·.value)
  | .function _ _ _ _ body => Stmt.rootsAll body
  | .assignment _ _ _ _ value | .output _ value | .throw _ value | .expression _ value => [value]

def Stmt.rootsAll : List Stmt → List Expr
  | [] => []
  | s :: rest => s.roots ++ Stmt.rootsAll rest

end

-- All expressions of a program, parts before the whole, in source order.
def Program.nodes (p : Program) : List Expr := (Stmt.rootsAll p.body).flatMap Expr.nodes

mutual

theorem Stmt.ids_roots : ∀ s : Stmt, s.ids = s.roots.flatMap Expr.ids
  | .declaration _ _ declarators => by
    rw [Stmt.ids, Stmt.roots]
    induction declarators with
    | nil => rfl
    | cons d rest ih => cases value : d.value <;> simp [Declarator.ids, value, ih]
  | .function _ _ _ _ body => Stmt.idsAll_roots body
  | .assignment .. | .output .. | .throw .. | .expression .. => by simp [Stmt.ids, Stmt.roots]

theorem Stmt.idsAll_roots : ∀ body : List Stmt,
    Stmt.idsAll body = (Stmt.rootsAll body).flatMap Expr.ids
  | [] => rfl
  | s :: rest => by
    rw [Stmt.idsAll, Stmt.rootsAll, List.flatMap_append, s.ids_roots, Stmt.idsAll_roots rest]

end

theorem Stmt.idsAll_append (before after : List Stmt) :
    Stmt.idsAll (before ++ after) = Stmt.idsAll before ++ Stmt.idsAll after := by
  induction before with
  | nil => rfl
  | cons s before ih => rw [List.cons_append, Stmt.idsAll, Stmt.idsAll, ih, List.append_assoc]

end Scriptlet
