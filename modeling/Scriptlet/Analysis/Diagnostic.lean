import Scriptlet.Source.Position

/-!
What a check of a program can complain about. A diagnostic never ends the check.
-/

namespace Scriptlet

inductive DiagnosticKind where
  | duplicateDeclaration
  | undeclaredReference
  | immutableReassignment
  | typeMismatch
  | arityMismatch
  | undefinedFunction
  | castFailure
  | unsupportedOperator
  | evaluationFailure
  | misplacedThrow
deriving DecidableEq

def DiagnosticKind.name : DiagnosticKind → String
  | .duplicateDeclaration => "DuplicateDeclaration"
  | .undeclaredReference => "UndeclaredReference"
  | .immutableReassignment => "ImmutableReassignment"
  | .typeMismatch => "TypeMismatch"
  | .arityMismatch => "ArityMismatch"
  | .undefinedFunction => "UndefinedFunction"
  | .castFailure => "CastFailure"
  | .unsupportedOperator => "UnsupportedOperator"
  | .evaluationFailure => "EvaluationFailure"
  | .misplacedThrow => "MisplacedThrow"

structure Diagnostic where
  kind : DiagnosticKind
  message : String
  position : Position
deriving DecidableEq

def Diagnostic.text (d : Diagnostic) : String :=
  s!"{d.message} (line {d.position.line}, column {d.position.column})"

-- The first line of its report.
def Diagnostic.headline (d : Diagnostic) : String := s!"{d.kind.name} ({d.message})"

namespace Diagnostic

def undeclaredVariable (name : String) (position : Position) : Diagnostic :=
  ⟨.undeclaredReference, s!"Variable '{name}' is not declared", position⟩

def fixedReassigned (name : String) (position : Position) : Diagnostic :=
  ⟨.immutableReassignment, s!"Fixed variable '{name}' cannot be reassigned", position⟩

def nameOfFunction (name : String) (position : Position) : Diagnostic :=
  ⟨.duplicateDeclaration, s!"'{name}' is already defined as a function", position⟩

def variableRepeated (fixed : Bool) (name : String) (position : Position) : Diagnostic :=
  let what := if fixed then "Fixed variable" else "Variable"
  ⟨.duplicateDeclaration, s!"{what} '{name}' is already declared in this scope", position⟩

def parameterRepeated (function name : String) (position : Position) : Diagnostic :=
  ⟨.duplicateDeclaration, s!"Parameter '{name}' is already declared in function '{function}'",
    position⟩

def functionShadowsGlobal (name : String) (position : Position) : Diagnostic :=
  ⟨.duplicateDeclaration, s!"Function '{name}' conflicts with the global variable '{name}'",
    position⟩

def functionShadowsLocal (name : String) (position : Position) : Diagnostic :=
  ⟨.duplicateDeclaration,
    s!"Function '{name}' conflicts with the variable '{name}' in an enclosing scope", position⟩

def functionRepeated (name : String) (position : Position) : Diagnostic :=
  ⟨.duplicateDeclaration, s!"Function '{name}' is already defined", position⟩

def undefinedFunction (name : String) (position : Position) : Diagnostic :=
  ⟨.undefinedFunction, s!"Function '{name}' is not defined", position⟩

def arityMismatch (name : String) (expected found : Nat) (position : Position) : Diagnostic :=
  ⟨.arityMismatch, s!"Function '{name}' expects {expected} arguments, got {found}", position⟩

def misplacedThrow (position : Position) : Diagnostic :=
  ⟨.misplacedThrow, "`throw` is only allowed inside a function body", position⟩

end Diagnostic

end Scriptlet
