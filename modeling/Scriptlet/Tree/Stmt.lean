import Scriptlet.Tree.Expr

namespace Scriptlet

-- One name of a declaration with its first value, as `b = 2` in `var a, b = 2;`.
structure Declarator where
  name : String
  value : Option Expr
  span : Span

structure Parameter where
  name : String
  span : Span
deriving DecidableEq

inductive Stmt where
  | declaration (span : Span) (fixed : Bool) (declarators : List Declarator)
  | assignment (span : Span) (name : String) (nameSpan : Span) (op : AssignOp) (value : Expr)
  | function (span : Span) (name : String) (nameSpan : Span) (parameters : List Parameter)
      (body : List Stmt)
  | output (span : Span) (value : Expr)
  | throw (span : Span) (value : Expr)
  | expression (span : Span) (value : Expr)

def Stmt.span : Stmt → Span
  | declaration s _ _ | assignment s _ _ _ _ | function s _ _ _ _ | output s _ | throw s _
  | expression s _ => s

structure Program where
  body : List Stmt
  span : Span

end Scriptlet
