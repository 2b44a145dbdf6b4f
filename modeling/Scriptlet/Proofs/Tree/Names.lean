import Scriptlet.Tree.Stmt

/-!
The names in a tree: those an expression uses, those a statement declares, and those that stand
in a statement without counting the inside of functions, or with it.
-/

namespace Scriptlet

mutual

-- The variables and functions that an expression uses.
def Expr.names : Expr → List String
  | .literal _ _ => []
  | .identifier _ name => [name]
  | .call _ callee _ arguments => callee :: Expr.namesAll arguments
  | .list _ items => Expr.namesAll items
  | .binary _ _ left right => left.names ++ right.names
  | .unary _ _ operand => operand.names
  | .cast _ _ operand => operand.names
  | .grouping _ inner => inner.names

def Expr.namesAll : List Expr → List String
  | [] => []
  | e :: es => e.names ++ Expr.namesAll es

end

def Declarator.names (d : Declarator) : List String :=
  d.name :: d.value.elim [] Expr.names

-- The variables that a statement declares in its own scope.
def Stmt.declared : Stmt → List String
  | .declaration _ _ declarators => declarators.map (·.name)
  | _ => []

mutual

-- The functions that a statement defines, at any depth.
def Stmt.functions : Stmt → List String
  | .function _ name _ _ body => name :: Stmt.functionsAll body
  | _ => []

def Stmt.functionsAll : List Stmt → List String
  | [] => []
  | s :: rest => s.functions ++ Stmt.functionsAll rest

end

-- The variable that a statement assigns to.
def Stmt.assigned : Stmt → List String
  | .assignment _ name _ _ _ => [name]
  | _ => []

-- The function that a statement defines, without those inside it.
def Stmt.defined : Stmt → List String
  | .function _ name _ _ _ => [name]
  | _ => []

-- The names that a statement mentions in its own scope; the inside of a function is not in it.
def Stmt.ownNames : Stmt → List String
  | .declaration _ _ declarators => declarators.flatMap Declarator.names
  | .assignment _ name _ _ value => name :: value.names
  | .function _ name _ _ _ => [name]
  | .output _ value | .throw _ value | .expression _ value => value.names

mutual

-- All names of a statement.
def Stmt.allNames : Stmt → List String
  | .function _ name _ parameters body =>
    name :: parameters.map (·.name) ++ Stmt.allNamesAll body
  | .declaration _ _ declarators => declarators.flatMap Declarator.names
  | .assignment _ name _ _ value => name :: value.names
  | .output _ value | .throw _ value | .expression _ value => value.names

def Stmt.allNamesAll : List Stmt → List String
  | [] => []
  | s :: rest => s.allNames ++ Stmt.allNamesAll rest

end

namespace Stmt

variable {s : Stmt} {body body' : List Stmt} {x : String}

theorem mem_allNamesAll : x ∈ allNamesAll body ↔ ∃ s ∈ body, x ∈ s.allNames := by
  induction body with
  | nil => simp [allNamesAll]
  | cons s rest ih => simp [allNamesAll, ih]

theorem ownNames_subset (member : x ∈ s.ownNames) : x ∈ s.allNames := by
  cases s with
  | function => exact List.mem_append_left _ (List.mem_cons.2 (.inl (List.mem_singleton.1 member)))
  | _ => exact member

theorem declared_subset (member : x ∈ s.declared) : x ∈ s.ownNames := by
  cases s with
  | declaration span fixed declarators =>
    obtain ⟨d, listed, rfl⟩ := List.mem_map.1 member
    exact List.mem_flatMap.2 ⟨d, listed, by simp [Declarator.names]⟩
  | _ => cases member

theorem assigned_subset (member : x ∈ s.assigned) : x ∈ s.ownNames := by
  cases s with
  | assignment => exact List.mem_cons.2 (.inl (List.mem_singleton.1 member))
  | _ => cases member

theorem defined_subset (member : x ∈ s.defined) : x ∈ s.ownNames := by
  cases s with
  | function => exact member
  | _ => cases member

end Stmt

end Scriptlet
