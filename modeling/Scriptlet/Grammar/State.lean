import Scriptlet.Fault
import Scriptlet.Grammar.Cursor
import Scriptlet.Tree.Expr

/-!
Parsing steps. A step moves a cursor and hands out node numbers in order; when it stops, the
state says how far it came.
-/

namespace Scriptlet

structure ParseState where
  cursor : Cursor
  nextId : NodeId

-- Why a step stops early: the source is at fault, or the step was not allowed to go on for longer.
inductive Stop where
  | fault (fault : Fault)
  | exhausted
deriving DecidableEq

abbrev Parse := EStateM Stop ParseState

namespace Parse

def start (tokens : List Token) : ParseState := ⟨.ofTokens tokens, 0⟩

def cursor : Parse Cursor := return (← get).cursor

def current : Parse Token := return (← cursor).current

def kind : Parse TokenKind := return (← cursor).kind

def exhausted {α : Type} : Parse α := throw .exhausted

def fail {α : Type} (cause : FaultCause) (position : Position) : Parse α :=
  throw (.fault ⟨cause, position⟩)

-- The token has no place here.
def refuse {α : Type} (token : Token) : Parse α :=
  fail (.unexpectedToken token.value) token.span.start

-- The fault that the current token is none of what `message` asks for.
def unexpected (message : String) (c : Cursor) : Fault :=
  ⟨.unexpectedTokenDetailed c.current.value message, c.position⟩

def failWith {α : Type} (message : String) : Parse α := do
  throw (.fault (unexpected message (← cursor)))

-- Passes the current token and gives it back.
def advance : Parse Token :=
  modifyGet fun s => (s.cursor.current, { s with cursor := s.cursor.advance })

def expectOr (kind : TokenKind) (otherwise : Cursor → Fault) : Parse Token := do
  let c ← cursor
  if c.kind = kind then advance else throw (.fault (otherwise c))

def expect (kind : TokenKind) : Parse Token :=
  expectOr kind fun c => ⟨.unexpectedToken c.current.value, c.position⟩

def expectNamed (kind : TokenKind) (message : String) : Parse Token :=
  expectOr kind (unexpected message)

def newId : Parse NodeId :=
  modifyGet fun s => (s.nextId, { s with nextId := s.nextId + 1 })

def newNode (span : Span) : Parse Node := return ⟨← newId, span⟩

-- Passes a token of the given kind if it is the current one.
def accept (kind : TokenKind) : Parse Bool := do
  if (← Parse.kind) = kind then
    let _ ← advance
    return true
  else return false

end Parse

end Scriptlet
