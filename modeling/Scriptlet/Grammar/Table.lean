import Scriptlet.Token.Basic

/-!
The grammar as tables by kind of token: which rule starts a statement, which rule starts an
expression, which one goes on with an expression, and how tightly it binds.
-/

namespace Scriptlet

-- How tightly a token binds what stands on its left, loosest first.
inductive Power where
  | default
  | logicalOr
  | logicalAnd
  | equality
  | relational
  | additive
  | multiplicative
  | unary
  | call
  | primary
deriving DecidableEq

namespace Power

def rank : Power → Nat
  | default => 0
  | logicalOr => 1
  | logicalAnd => 2
  | equality => 3
  | relational => 4
  | additive => 5
  | multiplicative => 6
  | unary => 7
  | call => 8
  | primary => 9

def name : Power → String
  | default => "Default"
  | logicalOr => "LogicalOr"
  | logicalAnd => "LogicalAnd"
  | equality => "Equality"
  | relational => "Relational"
  | additive => "Additive"
  | multiplicative => "Multiplicative"
  | unary => "Unary"
  | call => "Call"
  | primary => "Primary"

end Power

inductive OpeningRule where
  | leaf | signed | grouping | cast | list
deriving DecidableEq

inductive JoiningRule where
  | binary | call
deriving DecidableEq

inductive StatementRule where
  | any | declaration | assignment | function | output | throw
deriving DecidableEq

structure Grammar where
  statement : TokenKind → Option StatementRule
  opening : TokenKind → Option OpeningRule
  joining : TokenKind → Option JoiningRule
  power : TokenKind → Option Power

namespace Grammar

-- A token without an entry binds as loosely as can be.
def powerOf (g : Grammar) (kind : TokenKind) : Power := (g.power kind).getD .default

def blank : Grammar := ⟨fun _ => none, fun _ => none, fun _ => none, fun _ => none⟩

def enter {α : Type} (table : TokenKind → Option α) (kind : TokenKind) (entry : α) :
    TokenKind → Option α :=
  fun k => if k = kind then some entry else table k

def withOpening (g : Grammar) (kind : TokenKind) (rule : OpeningRule) : Grammar :=
  { g with opening := enter g.opening kind rule }

def withJoining (g : Grammar) (kind : TokenKind) (power : Power) (rule : JoiningRule) : Grammar :=
  { g with joining := enter g.joining kind rule, power := enter g.power kind power }

-- A power that the token has already stays.
def withStatement (g : Grammar) (kind : TokenKind) (rule : StatementRule) : Grammar :=
  { g with
    statement := enter g.statement kind rule
    power := enter g.power kind (g.powerOf kind) }

-- The grammar of the language, entry by entry.
def standard : Grammar :=
  blank
    |>.withJoining .or .logicalOr .binary
    |>.withJoining .and .logicalAnd .binary
    |>.withJoining .equals .equality .binary
    |>.withJoining .notEquals .equality .binary
    |>.withJoining .less .relational .binary
    |>.withJoining .lessEquals .relational .binary
    |>.withJoining .greater .relational .binary
    |>.withJoining .greaterEquals .relational .binary
    |>.withJoining .plus .additive .binary
    |>.withJoining .dash .additive .binary
    |>.withJoining .star .multiplicative .binary
    |>.withJoining .slash .multiplicative .binary
    |>.withJoining .percent .multiplicative .binary
    |>.withJoining .openParen .call .call
    |>.withOpening .integerLiteral .leaf
    |>.withOpening .negIntegerLiteral .leaf
    |>.withOpening .pointLiteral .leaf
    |>.withOpening .negPointLiteral .leaf
    |>.withOpening .textLiteral .leaf
    |>.withOpening .stateLiteral .leaf
    |>.withOpening .emptyLiteral .leaf
    |>.withOpening .identifier .leaf
    |>.withOpening .not .signed
    |>.withOpening .tilde .signed
    |>.withOpening .openParen .grouping
    |>.withOpening .openBracket .list
    |>.withOpening .integerType .cast
    |>.withOpening .pointType .cast
    |>.withOpening .textType .cast
    |>.withOpening .stateType .cast
    |>.withStatement .varKeyword .declaration
    |>.withStatement .fixedKeyword .declaration
    |>.withStatement .funcKeyword .function
    |>.withStatement .showKeyword .output
    |>.withStatement .throwKeyword .throw

end Grammar

end Scriptlet
