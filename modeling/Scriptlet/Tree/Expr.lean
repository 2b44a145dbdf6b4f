import Scriptlet.Source.Position
import Scriptlet.Tree.Operator

/-!
Expressions as trees. Every node carries a number, by which later passes file their results, and
the stretch of source that it was read from.
-/

namespace Scriptlet

abbrev NodeId := Nat

structure Node where
  id : NodeId
  span : Span
deriving DecidableEq, Inhabited

-- A negative numeral is already negated here.
inductive Literal where
  | integer (n : Int64)
  | point (x : Float)
  | state (b : Bool)
  | text (s : String)
  | empty
deriving DecidableEq

-- Parentheses are kept as a node of their own.
inductive Expr where
  | literal (node : Node) (value : Literal)
  | identifier (node : Node) (name : String)
  | call (node : Node) (callee : String) (calleeSpan : Span) (arguments : List Expr)
  | list (node : Node) (items : List Expr)
  | binary (node : Node) (op : BinaryOp) (left right : Expr)
  | unary (node : Node) (op : UnaryOp) (operand : Expr)
  | cast (node : Node) (target : CastTarget) (operand : Expr)
  | grouping (node : Node) (inner : Expr)

namespace Expr

def node : Expr → Node
  | literal n _ | identifier n _ | call n _ _ _ | list n _ | binary n _ _ _ | unary n _ _
  | cast n _ _ | grouping n _ => n

def id (e : Expr) : NodeId := e.node.id

def span (e : Expr) : Span := e.node.span

end Expr

end Scriptlet
