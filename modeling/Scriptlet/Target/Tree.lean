import Scriptlet.Tree.Operator

namespace Scriptlet.Target

inductive Operator where
  | arithmetic (op : Arithmetic)
  | comparison (op : Comparison)
  | bitOr
  | bitAnd
deriving DecidableEq

def Operator.symbol : Operator → String
  | .arithmetic op => op.symbol
  | .comparison op => op.symbol
  | .bitOr => "|"
  | .bitAnd => "&"

inductive Expr where
  | name (spelling : String)
  | integer (n : Int64)
  | float (x : Float)
  | boolean (b : Bool)
  | null
  | string (s : String)
  | call (function : String) (arguments : List Expr)
  | list (items : List Expr)
  | binary (op : Operator) (left right : Expr)
  | not (operand : Expr)
  | negate (operand : Expr)
  | grouped (inner : Expr)
  -- Evaluates everything in order and is `False`.
  | falseAfter (evaluated : List Expr)
  -- `"YES"` or `"NO"`, by a condition.
  | yesNo (condition : Expr)

inductive Stmt where
  | assign (name : String) (value : Expr)
  | augment (name : String) (op : Arithmetic) (value : Expr)
  | expression (value : Expr)
  | ret (value : Expr)
  | globals (names : List String)
  | nonlocals (names : List String)
  | pass
  | function (name : String) (parameters : List String) (body : List Stmt)

end Scriptlet.Target
