import Scriptlet.Target.Tree

/-!
The scope rules of Python, for the forms that generated code has. A name that a function binds
anywhere, as a parameter, by an assignment or by a nested definition, is local to that function,
unless the function lists it under `global` or `nonlocal`.
-/

namespace Scriptlet.Target

mutual

-- The names that occur in an expression.
def Expr.names : Expr → List String
  | .name spelling => [spelling]
  | .integer _ | .float _ | .boolean _ | .null | .string _ => []
  | .call function arguments => function :: Expr.namesAll arguments
  | .list items => Expr.namesAll items
  | .binary _ left right => left.names ++ right.names
  | .not operand | .negate operand | .grouped operand => operand.names
  | .falseAfter evaluated => Expr.namesAll evaluated
  | .yesNo condition => condition.names

def Expr.namesAll : List Expr → List String
  | [] => []
  | e :: es => e.names ++ Expr.namesAll es

end

theorem Expr.mem_namesAll {es : List Expr} {n : String} :
    n ∈ namesAll es ↔ ∃ e ∈ es, n ∈ e.names := by
  induction es with
  | nil => simp [namesAll]
  | cons e es ih => simp [namesAll, ih]

namespace Stmt

-- The names that occur in a statement. The parameters and the body of a definition are not part
-- of the block that it stands in.
def ownNames : Stmt → List String
  | assign name value | augment name _ value => name :: value.names
  | expression value | ret value => value.names
  | globals names | nonlocals names => names
  | pass => []
  | function name _ _ => [name]

-- The names that a statement binds in its block.
def bound : Stmt → List String
  | assign name _ | augment name _ _ | function name _ _ => [name]
  | _ => []

def globalNames : Stmt → List String
  | globals names => names
  | _ => []

def nonlocalNames : Stmt → List String
  | nonlocals names => names
  | _ => []

-- The names that a scope line lists.
def listed (s : Stmt) : List String := s.globalNames ++ s.nonlocalNames

end Stmt

-- A definition in a script.
structure Def where
  name : String
  parameters : List String
  body : List Stmt

namespace Def

def globals (d : Def) : List String := d.body.flatMap Stmt.globalNames

def nonlocals (d : Def) : List String := d.body.flatMap Stmt.nonlocalNames

-- Whether a name is local to the function.
def binds (d : Def) (name : String) : Bool :=
  (d.parameters ++ d.body.flatMap Stmt.bound).contains name && !d.globals.contains name &&
    !d.nonlocals.contains name

end Def

-- The definitions that stand in a block itself.
def definitionsOf (block : List Stmt) : List Def :=
  block.filterMap fun s =>
    match s with
    | .function name parameters body => some ⟨name, parameters, body⟩
    | _ => none

theorem mem_definitionsOf {block : List Stmt} {d : Def} (member : d ∈ definitionsOf block) :
    .function d.name d.parameters d.body ∈ block := by
  obtain ⟨s, listed, same⟩ := List.mem_filterMap.1 member
  cases s with
  | function name parameters body =>
    cases same
    exact listed
  | _ => cases same

-- A definition in the script with the definitions around it, innermost first.
inductive Nested (script : List Stmt) : List Def → Prop where
  | outermost {d} (defined : .function d.name d.parameters d.body ∈ script) : Nested script [d]
  | inner {d outer rest} (around : Nested script (outer :: rest))
      (defined : .function d.name d.parameters d.body ∈ outer.body) :
      Nested script (d :: outer :: rest)

-- Which variable an assignment to `name` in the body of `d` writes: the number of functions to
-- leave until the one it is local to, all of them for a variable of the module. There is none if
-- `nonlocal` finds no binding.
def writtenAt (d : Def) (outer : List Def) (name : String) : Option Nat :=
  if d.globals.contains name then some (outer.length + 1)
  else if d.nonlocals.contains name then (outer.findIdx? (·.binds name)).map (· + 1)
  else some 0

end Scriptlet.Target
