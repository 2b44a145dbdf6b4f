import Scriptlet.Analysis.Diagnostic
import Scriptlet.Value.Basic

namespace Scriptlet

inductive ValueFailure where
  | listConcatenation
  | typeMismatch (operator : String) (tag : Tag)
  | unsupportedOperator (operator : String) (tag : Tag)
  | evaluation (message : String)
  | cast (shown : String) (tag : Tag) (target : CastTarget)
deriving DecidableEq

namespace ValueFailure

def divisionByZero : ValueFailure := .evaluation "Division by zero"

def integerOverflow (op : Arithmetic) (a b : Int64) : ValueFailure :=
  .evaluation s!"Integer overflow evaluating {Integer.text a} {op.symbol} {Integer.text b}"

def negationOverflow (n : Int64) : ValueFailure :=
  .evaluation s!"Integer overflow negating {Integer.text n}"

def notFinite (op : Arithmetic) (x y : Float) : ValueFailure :=
  let left := Point.Layout.plain.write x
  let right := Point.Layout.plain.write y
  .evaluation s!"Non-finite result evaluating {left} {op.symbol} {right}"

def kind : ValueFailure → DiagnosticKind
  | listConcatenation | typeMismatch .. => .typeMismatch
  | unsupportedOperator .. => .unsupportedOperator
  | evaluation _ => .evaluationFailure
  | cast .. => .castFailure

def message : ValueFailure → String
  | listConcatenation => "`+` not allowed between a list and a non-list"
  | typeMismatch operator tag => s!"`{operator}` not allowed on {tag.name} type"
  | unsupportedOperator operator tag => s!"Unsupported operator `{operator}` for {tag.name} values"
  | evaluation text => text
  | cast shown tag target => s!"Cannot cast {tag.name} value `{shown}` to {target.name}"

-- The diagnostic for a failure found at `position`.
def diagnostic (f : ValueFailure) (position : Position) : Diagnostic :=
  ⟨f.kind, f.message, position⟩

end ValueFailure

end Scriptlet
