import Scriptlet.Token.Basic

/-!
A place in a list of tokens. There is always a current token, and the last one is never left.
-/

namespace Scriptlet

structure Cursor where
  -- Where the token before the current one ends, if there is one.
  previous : Option Position
  current : Token
  ahead : List Token

namespace Cursor

-- A list that does not end in an end mark gets one, just after its last token.
def closed (tokens : List Token) : List Token :=
  match tokens.getLast? with
  | none => [Token.eof .null]
  | some last => if last.kind = .eof then tokens else tokens ++ [Token.eof last.span.stop]

def ofTokens (tokens : List Token) : Cursor :=
  match closed tokens with
  | [] => ⟨none, Token.eof .null, []⟩
  | token :: rest => ⟨none, token, rest⟩

def kind (c : Cursor) : TokenKind := c.current.kind

def position (c : Cursor) : Position := c.current.span.start

-- The end of the token passed last; at the start it is the position itself.
def previousEnd (c : Cursor) : Position := c.previous.getD c.position

-- The token `n` places ahead, or the last one if there are not that many.
def peek (c : Cursor) (n : Nat) : Token := (c.ahead.take n).getLastD c.current

def advance (c : Cursor) : Cursor :=
  match c.ahead with
  | [] => c
  | token :: rest => ⟨some c.current.span.stop, token, rest⟩

def atEnd (c : Cursor) : Bool := c.kind == .eof

end Cursor

end Scriptlet
