import Scriptlet.Integer
import Scriptlet.Point.Layout
import Scriptlet.Target.Tree
import Scriptlet.Text.Quoted

/-!
The text of generated Python. Every operation stands in parentheses, so no rule of precedence is
relied on; a nested block is indented by one level.
-/

namespace Scriptlet.Target

-- Control characters of Unicode.
def isControl (c : Char) : Bool := c.toNat < 0x20 || (0x7f ≤ c.toNat && c.toNat ≤ 0x9f)

-- A code point below 256 as two hexadecimal digits.
def twoHex (n : Nat) : List Char := Text.hex (n / 16) ++ Text.hex (n % 16)

def stringChar (c : Char) : List Char :=
  if c = '\\' then ['\\', '\\']
  else if c = '"' then ['\\', '"']
  else if c = '\n' then ['\\', 'n']
  else if c = '\t' then ['\\', 't']
  else if c = '\r' then ['\\', 'r']
  else if isControl c then '\\' :: 'x' :: twoHex c.toNat
  else [c]

-- A string literal in double quotes.
def stringLiteral (s : String) : String :=
  String.ofList ('"' :: s.toList.flatMap stringChar ++ ['"'])

def floatLiteral (x : Float) : String := Point.Layout.literal.write x

def commaSeparated (items : List String) : String := String.intercalate ", " items

mutual

def Expr.print : Expr → String
  | .name spelling => spelling
  | .integer n => Integer.text n
  | .float x => floatLiteral x
  | .boolean b => if b then "True" else "False"
  | .null => "None"
  | .string s => stringLiteral s
  | .call function arguments => function ++ "(" ++ commaSeparated (Expr.printAll arguments) ++ ")"
  | .list items => "[" ++ commaSeparated (Expr.printAll items) ++ "]"
  | .binary op left right => "(" ++ left.print ++ " " ++ op.symbol ++ " " ++ right.print ++ ")"
  | .not operand => "(not " ++ operand.print ++ ")"
  | .negate operand => "(-" ++ operand.print ++ ")"
  | .grouped inner => "(" ++ inner.print ++ ")"
  | .falseAfter evaluated =>
    "(" ++ commaSeparated (Expr.printAll evaluated ++ ["False"]) ++ ")[-1]"
  | .yesNo condition => "(\"YES\" if " ++ condition.print ++ " else \"NO\")"

def Expr.printAll : List Expr → List String
  | [] => []
  | e :: es => e.print :: Expr.printAll es

end

attribute [simp] Expr.print Expr.printAll

-- Text at a level of nesting, with `width` spaces for each.
def indented (width depth : Nat) (text : String) : String :=
  String.ofList (List.replicate (depth * width) ' ') ++ text

mutual

def Stmt.lines (width depth : Nat) : Stmt → List String
  | .assign name value => [indented width depth (name ++ " = " ++ value.print)]
  | .augment name op value =>
    [indented width depth (name ++ " " ++ op.symbol ++ "= " ++ value.print)]
  | .expression value => [indented width depth value.print]
  | .ret value => [indented width depth ("return " ++ value.print)]
  | .globals names => [indented width depth ("global " ++ commaSeparated names)]
  | .nonlocals names => [indented width depth ("nonlocal " ++ commaSeparated names)]
  | .pass => [indented width depth "pass"]
  | .function name parameters body =>
    indented width depth ("def " ++ name ++ "(" ++ commaSeparated parameters ++ "):") ::
      Stmt.allLines width (depth + 1) body

def Stmt.allLines (width depth : Nat) : List Stmt → List String
  | [] => []
  | s :: rest => s.lines width depth ++ Stmt.allLines width depth rest

end

end Scriptlet.Target
