import Scriptlet.Source.Position
import Scriptlet.Text.Quoted

/-!
Faults end the work on a source text: the first one found in the text is the answer. Each has a
name, a description with the text at fault in quotes, and most have a tip for the author.
-/

namespace Scriptlet

inductive FaultCause where
  | unrecognisedToken (token : String)
  | invalidIdentifier (identifier reason : String)
  | invalidInteger (literal : String)
  | invalidPoint (literal : String)
  | unterminatedText
  | unexpectedToken (token : String)
  | unexpectedTokenDetailed (token message : String)
  | unreadableNumber (token : String)
  | semanticErrors (count : Nat)
deriving DecidableEq

namespace FaultCause

def name : FaultCause → String
  | unrecognisedToken _ => "UnrecognisedToken"
  | invalidIdentifier .. => "InvalidIdentifier"
  | invalidInteger _ => "InvalidInteger"
  | invalidPoint _ => "InvalidPoint"
  | unterminatedText => "UnterminatedText"
  | unexpectedToken _ => "UnexpectedToken"
  | unexpectedTokenDetailed .. => "UnexpectedTokenDetailed"
  | unreadableNumber _ => "NumberParseError"
  | semanticErrors _ => "SemanticErrors"

def description : FaultCause → String
  | unrecognisedToken token => "unrecognised token: " ++ Text.quoted token
  | invalidIdentifier identifier reason =>
    "invalid identifier " ++ Text.quoted identifier ++ ": " ++ reason
  | invalidInteger literal => "integer literal " ++ Text.quoted literal ++ " is too long"
  | invalidPoint literal => "point literal " ++ Text.quoted literal ++ " is too long"
  | unterminatedText => "unterminated text literal"
  | unexpectedToken token => "unexpected token: " ++ Text.quoted token
  | unexpectedTokenDetailed token message =>
    "unexpected token (" ++ Text.quoted message ++ "): " ++ Text.quoted token
  | unreadableNumber token => "error parsing number: " ++ Text.quoted token
  | semanticErrors count => s!"semantic analysis reported {count} error(s)"

-- The tip shows the text at fault as it stands.
def tip? : FaultCause → Option String
  | unrecognisedToken _ => none
  | invalidIdentifier identifier reason => some s!"Invalid identifier `{identifier}`: {reason}"
  | invalidInteger literal =>
    some s!"Integer literal `{literal}` exceeds the maximum of 9 digits"
  | invalidPoint literal =>
    some s!"Point literal `{literal}` has more than 9 digits before or after the decimal point"
  | unterminatedText => some "Text literal is missing its closing `\"`"
  | unexpectedToken token => some s!"Unexpected token: `{token}`, did you miss a semicolon?"
  | unexpectedTokenDetailed token message => some s!"Unexpected token: `{token}`, {message}"
  | unreadableNumber token => some s!"Invalid number: `{token}`, is it above the integer limit?"
  | semanticErrors count => some s!"{count} semantic error(s) must be fixed before code generation"

end FaultCause

structure Fault where
  cause : FaultCause
  position : Position
deriving DecidableEq

namespace Fault

def message (f : Fault) : String := f.cause.description ++ " at " ++ f.position.text

-- The first line of its report: the name, and the tip in parentheses if there is one.
def headline (f : Fault) : String :=
  match f.cause.tip? with
  | none => f.cause.name
  | some tip => s!"{f.cause.name} ({tip})"

end Fault

end Scriptlet
