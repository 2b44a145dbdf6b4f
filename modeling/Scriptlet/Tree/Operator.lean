namespace Scriptlet

inductive Arithmetic where
  | add | subtract | multiply | divide | modulo
deriving DecidableEq

inductive Comparison where
  | equal | notEqual | less | lessEqual | greater | greaterEqual
deriving DecidableEq

inductive Logical where
  | or | and
deriving DecidableEq

inductive BinaryOp where
  | logical (op : Logical)
  | comparison (op : Comparison)
  | arithmetic (op : Arithmetic)
deriving DecidableEq

inductive UnaryOp where
  | not | negate
deriving DecidableEq

-- `=`, or an arithmetic operator joined with it as in `+=`.
inductive AssignOp where
  | assign
  | compound (op : Arithmetic)
deriving DecidableEq

-- The types that a value can be cast to.
inductive CastTarget where
  | integer | point | text | state
deriving DecidableEq

def Arithmetic.symbol : Arithmetic → String
  | .add => "+"
  | .subtract => "-"
  | .multiply => "*"
  | .divide => "/"
  | .modulo => "%"

def Comparison.symbol : Comparison → String
  | .equal => "=="
  | .notEqual => "!="
  | .less => "<"
  | .lessEqual => "<="
  | .greater => ">"
  | .greaterEqual => ">="

-- Whether the comparison asks for an order and not only for equality.
def Comparison.isOrdering : Comparison → Bool
  | .equal | .notEqual => false
  | .less | .lessEqual | .greater | .greaterEqual => true

def Logical.symbol : Logical → String
  | .or => "||"
  | .and => "&&"

def BinaryOp.symbol : BinaryOp → String
  | .logical op => op.symbol
  | .comparison op => op.symbol
  | .arithmetic op => op.symbol

def BinaryOp.isLogical : BinaryOp → Bool
  | .logical _ => true
  | _ => false

def BinaryOp.isComparison : BinaryOp → Bool
  | .comparison _ => true
  | _ => false

def BinaryOp.isArithmetic : BinaryOp → Bool
  | .arithmetic _ => true
  | _ => false

def UnaryOp.symbol : UnaryOp → String
  | .not => "!"
  | .negate => "~"

def AssignOp.symbol : AssignOp → String
  | .assign => "="
  | .compound op => op.symbol ++ "="

-- The operator that a compound assignment applies to the old value and the new one.
def AssignOp.arithmetic? : AssignOp → Option Arithmetic
  | .assign => none
  | .compound op => some op

def CastTarget.name : CastTarget → String
  | .integer => "integer"
  | .point => "point"
  | .text => "text"
  | .state => "state"

end Scriptlet
