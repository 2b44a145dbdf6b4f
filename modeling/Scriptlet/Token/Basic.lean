import Scriptlet.Source.Position

namespace Scriptlet

inductive TokenKind where
  | eof
  | textLiteral
  | integerLiteral
  | negIntegerLiteral
  | pointLiteral
  | negPointLiteral
  | stateLiteral
  | emptyLiteral
  | identifier
  | openBracket
  | closeBracket
  | openCurly
  | closeCurly
  | openParen
  | closeParen
  | assignment
  | equals
  | not
  | notEquals
  | tilde
  | less
  | lessEquals
  | greater
  | greaterEquals
  | or
  | and
  | semicolon
  | comma
  | plusEquals
  | minusEquals
  | starEquals
  | slashEquals
  | percentEquals
  | plus
  | dash
  | slash
  | star
  | percent
  | varKeyword
  | fixedKeyword
  | funcKeyword
  | showKeyword
  | throwKeyword
  | integerType
  | pointType
  | textType
  | stateType
deriving DecidableEq, Inhabited

namespace TokenKind

def name : TokenKind → String
  | eof => "EOF"
  | textLiteral => "TextLiteral"
  | integerLiteral => "IntegerLiteral"
  | negIntegerLiteral => "NegIntegerLiteral"
  | pointLiteral => "PointLiteral"
  | negPointLiteral => "NegPointLiteral"
  | stateLiteral => "StateLiteral"
  | emptyLiteral => "Empty"
  | identifier => "Identifier"
  | openBracket => "OpenBracket"
  | closeBracket => "CloseBracket"
  | openCurly => "OpenCurly"
  | closeCurly => "CloseCurly"
  | openParen => "OpenParen"
  | closeParen => "CloseParen"
  | assignment => "Assignment"
  | equals => "Equals"
  | not => "Not"
  | notEquals => "NotEquals"
  | tilde => "Tilde"
  | less => "Less"
  | lessEquals => "LessEquals"
  | greater => "Greater"
  | greaterEquals => "GreaterEquals"
  | or => "Or"
  | and => "And"
  | semicolon => "Semicolon"
  | comma => "Comma"
  | plusEquals => "PlusEquals"
  | minusEquals => "MinusEquals"
  | starEquals => "StarEquals"
  | slashEquals => "SlashEquals"
  | percentEquals => "PercentEquals"
  | plus => "Plus"
  | dash => "Dash"
  | slash => "Slash"
  | star => "Star"
  | percent => "Percent"
  | varKeyword => "Var"
  | fixedKeyword => "Fixed"
  | funcKeyword => "Func"
  | showKeyword => "Show"
  | throwKeyword => "Throw"
  | integerType => "Integer"
  | pointType => "Point"
  | textType => "Text"
  | stateType => "State"

def all : List TokenKind :=
  [eof, textLiteral, integerLiteral, negIntegerLiteral, pointLiteral, negPointLiteral,
   stateLiteral, emptyLiteral, identifier, openBracket, closeBracket, openCurly, closeCurly,
   openParen, closeParen, assignment, equals, not, notEquals, tilde, less, lessEquals, greater,
   greaterEquals, or, and, semicolon, comma, plusEquals, minusEquals, starEquals, slashEquals,
   percentEquals, plus, dash, slash, star, percent, varKeyword, fixedKeyword, funcKeyword,
   showKeyword, throwKeyword, integerType, pointType, textType, stateType]

-- The four kinds that name a cast target.
def isType : TokenKind → Bool
  | integerType | pointType | textType | stateType => true
  | _ => false

def isAssignment : TokenKind → Bool
  | assignment | plusEquals | minusEquals | starEquals | slashEquals | percentEquals => true
  | _ => false

end TokenKind

-- For a text literal `value` is the text meant, otherwise it is the text as written.
structure Token where
  kind : TokenKind
  value : String
  span : Span
deriving DecidableEq, Inhabited

namespace Token

def text (t : Token) : String :=
  "Token \x7b\nkind: " ++ t.kind.name ++ ",\nvalue: " ++ t.value ++ "\x7d"

-- The end of the input, just after everything.
def eof (position : Position) : Token := ⟨.eof, "EOF", ⟨position, position⟩⟩

end Token

end Scriptlet
