import Scriptlet.Source.Position
import Scriptlet.Value.Basic

/-!
Names in scope. Scopes are numbered as they are opened and stay readable after they are closed;
`current :: enclosing` are the open ones, innermost first. Functions have one namespace for the
whole program.
-/

namespace Scriptlet

structure Symbol where
  name : String
  fixed : Bool
  declaredAt : Position
  value : Value

structure FunctionSymbol where
  name : String
  parameters : List String
  declaredAt : Position

def FunctionSymbol.arity (f : FunctionSymbol) : Nat := f.parameters.length

abbrev ScopeId := Nat

-- The variables of a scope have different names; they stand in the order of declaration.
structure Scope where
  parent : Option ScopeId
  bindings : List Symbol

namespace Scope

def find? (s : Scope) (name : String) : Option Symbol := s.bindings.find? (·.name = name)

def declare (s : Scope) (symbol : Symbol) : Scope :=
  { s with bindings := s.bindings ++ [symbol] }

def assign (s : Scope) (name : String) (value : Value) : Scope :=
  { s with
    bindings := s.bindings.map fun x => if x.name = name then { x with value := value } else x }

end Scope

structure SymbolTable where
  scopes : List Scope
  current : ScopeId
  enclosing : List ScopeId
  functions : List FunctionSymbol

namespace SymbolTable

def globalScope : ScopeId := 0

def empty : SymbolTable := ⟨[⟨none, []⟩], globalScope, [], []⟩

def isGlobal (t : SymbolTable) : Bool := t.current == globalScope

-- The open scopes, innermost first.
def path (t : SymbolTable) : List ScopeId := t.current :: t.enclosing

-- Opens a scope inside the current one.
def enter (t : SymbolTable) : SymbolTable :=
  { t with
    scopes := t.scopes ++ [⟨some t.current, []⟩]
    current := t.scopes.length
    enclosing := t.current :: t.enclosing }

-- Goes back to the scope around the current one; the outermost scope is never left.
def exit (t : SymbolTable) : SymbolTable :=
  match t.enclosing with
  | [] => t
  | outer :: rest => { t with current := outer, enclosing := rest }

def variableIn? (t : SymbolTable) (id : ScopeId) (name : String) : Option Symbol :=
  t.scopes[id]?.bind fun scope => scope.find? name

-- The innermost open scope that declares the name.
def home? (t : SymbolTable) (name : String) : Option ScopeId :=
  t.path.find? fun id => (t.variableIn? id name).isSome

-- The innermost binding of a name.
def lookup? (t : SymbolTable) (name : String) : Option Symbol :=
  t.path.findSome? fun id => t.variableIn? id name

def global? (t : SymbolTable) (name : String) : Option Symbol := t.variableIn? globalScope name

-- Declares a variable in the current scope, with the value `empty`. A name can be declared once
-- in each scope.
def declare? (t : SymbolTable) (name : String) (fixed : Bool) (position : Position) :
    Option SymbolTable :=
  match t.variableIn? t.current name with
  | some _ => none
  | none =>
    let symbol : Symbol := ⟨name, fixed, position, .empty⟩
    some { t with scopes := t.scopes.modify t.current fun scope => scope.declare symbol }

-- Gives the innermost variable of that name a new value; without one nothing changes.
def assign (t : SymbolTable) (name : String) (value : Value) : SymbolTable :=
  match t.home? name with
  | none => t
  | some id => { t with scopes := t.scopes.modify id fun scope => scope.assign name value }

def function? (t : SymbolTable) (name : String) : Option FunctionSymbol :=
  t.functions.find? (·.name = name)

-- The first function of a name keeps it.
def declareFunction? (t : SymbolTable) (name : String) (parameters : List String)
    (position : Position) : Option SymbolTable :=
  match t.function? name with
  | some _ => none
  | none => some { t with functions := t.functions ++ [⟨name, parameters, position⟩] }

end SymbolTable

end Scriptlet
