import Scriptlet.Analysis.Check
import Scriptlet.Target.Tree

/-!
From programs to Python. What the check found out about the values of an expression decides how
an operation is written; where nothing is known it is written as it stands.
-/

namespace Scriptlet

namespace Target

-- Keywords of Python, and the built-in names that generated code uses itself.
def reservedNames : List String :=
  ["and", "as", "assert", "async", "await", "break", "class", "continue", "def", "del", "elif",
   "else", "except", "finally", "for", "from", "global", "if", "import", "in", "is", "lambda",
   "nonlocal", "not", "or", "pass", "raise", "return", "try", "while", "with", "yield", "bool",
   "float", "int", "str", "print", "isinstance", "list"]

-- A name as it is spelled in Python. No identifier of the language starts with an underscore, so
-- the spelling of a reserved one is free.
def spell (name : String) : String :=
  if reservedNames.contains name then "_mn_" ++ name else name

-- The function in every script that prints a value, or only gives its printable form.
def showHelper : String := "_minima_show"

def shownText (e : Expr) : Expr := .call showHelper [e, .boolean false]

-- An operand as text, given the type of its value.
def textOf (e : Expr) : Tag → Expr
  | .text => e
  | .state => .yesNo e
  | .empty => .string "empty"
  | .integer | .point => .call "str" [e]
  | .list | .unknown => shownText e

def literal : Literal → Expr
  | .integer n => .integer n
  | .point x => .float x
  | .state b => .boolean b
  | .text s => .string s
  | .empty => .null

-- In arithmetic `empty` counts as zero.
def numericOperand (e : Expr) : Option Tag → Expr
  | some .empty => .integer 0
  | _ => e

-- A list is never true, not even one with elements.
def condition (e : Expr) : Option Tag → Expr
  | some .list => .falseAfter [e]
  | _ => e

def textOperand (e : Expr) : Option Tag → Expr
  | some tag => textOf e tag
  | none => e

-- Only two texts, or two numbers or states, have an order.
def neverOrdered : Option Tag → Option Tag → Bool
  | some .unknown, _ | _, some .unknown | none, _ | _, none => false
  | some .text, some .text => false
  | some left, some right => !(left.isNumeric && right.isNumeric)

-- Whether `+` joins texts: its value is one, or one side is and the other is not known.
def concatenates (whole left right : Option Tag) : Bool :=
  whole == some .text || (left == some .text && right == some .unknown) ||
    (left == some .unknown && right == some .text)

def binary (op : BinaryOp) (whole leftTag rightTag : Option Tag) (left right : Expr) : Expr :=
  match op with
  | .logical .or =>
    .binary .bitOr (.call "bool" [condition left leftTag]) (.call "bool" [condition right rightTag])
  | .logical .and =>
    .binary .bitAnd (.call "bool" [condition left leftTag])
      (.call "bool" [condition right rightTag])
  | .comparison op =>
    if op.isOrdering && neverOrdered leftTag rightTag then .falseAfter [left, right]
    else .binary (.comparison op) left right
  | .arithmetic op =>
    if op = .add ∧ concatenates whole leftTag rightTag then
      .binary (.arithmetic .add) (textOperand left leftTag) (textOperand right rightTag)
    else
      .binary (.arithmetic op) (numericOperand left leftTag) (numericOperand right rightTag)

def castFunction : CastTarget → String
  | .integer => "int"
  | .point => "float"
  | .text => "str"
  | .state => "bool"

-- Lists and `empty` pass through every cast.
def cast (target : CastTarget) (tag : Option Tag) (e : Expr) : Expr :=
  match target, tag with
  | _, some .list | _, some .empty => e
  | .text, some .state => textOf e .state
  | .text, some .unknown => textOf e .unknown
  | _, _ => .call (castFunction target) [e]

end Target

namespace Analysis

def tag? (a : Analysis) (id : NodeId) : Option Tag := a.values[id]?.map Value.tag

def targetTag? (a : Analysis) (id : NodeId) : Option Tag := a.targets[id]?.map Value.tag

end Analysis

mutual

def Expr.lower (a : Analysis) : Expr → Target.Expr
  | .literal _ value => Target.literal value
  | .identifier _ name => .name (Target.spell name)
  | .call _ callee _ arguments => .call (Target.spell callee) (Expr.lowerAll a arguments)
  | .list _ items => .list (Expr.lowerAll a items)
  | .binary node op left right =>
    Target.binary op (a.tag? node.id) (a.tag? left.id) (a.tag? right.id) (left.lower a)
      (right.lower a)
  | .unary _ .not operand => .not (Target.condition (operand.lower a) (a.tag? operand.id))
  | .unary _ .negate operand => .negate (operand.lower a)
  | .cast _ target operand => Target.cast target (a.tag? operand.id) (operand.lower a)
  | .grouping _ inner => .grouped (inner.lower a)

def Expr.lowerAll (a : Analysis) : List Expr → List Target.Expr
  | [] => []
  | e :: es => e.lower a :: Expr.lowerAll a es

end

namespace Target

-- `name op= value`, given the types of the variable before it and of the value. A new binding
-- is made where the old value is a list, not known, or `empty`.
def compound (name : String) (op : Arithmetic) (target operand : Option Tag) (value : Expr) :
    Stmt :=
  let plain :=
    let right := numericOperand value operand
    match target with
    | some .empty => .assign name (.binary (.arithmetic op) (.integer 0) right)
    | some .list | some .unknown => .assign name (.binary (.arithmetic op) (.name name) right)
    | _ => .augment name op right
  match op, target, operand with
  | .add, some .text, some tag => .augment name .add (textOf value tag)
  | .add, some tag, some .text =>
    .assign name (.binary (.arithmetic .add) (textOf (.name name) tag) value)
  | _, _, _ => plain

-- The names that a function body binds itself: parameters, and declarations that are not nested
-- in another function.
def localNames (parameters : List Parameter) (body : List Scriptlet.Stmt) : List String :=
  parameters.map (·.name) ++ body.flatMap fun s =>
    match s with
    | .declaration _ _ declarators => declarators.map (·.name)
    | _ => []

-- The names that a body assigns to without binding them, each once.
def outerNames (locals : List String) (body : List Scriptlet.Stmt) : List String :=
  let assigned := body.filterMap fun s =>
    match s with
    | .assignment _ name _ _ _ => some name
    | _ => none
  (assigned.filter fun name => !locals.contains name).eraseDups

-- Whether an enclosing function binds the name.
def bindsLocally (enclosing : List (List String)) (name : String) : Bool :=
  enclosing.any fun locals => locals.contains name

-- The line that reaches names bound outside, if there are any.
def outerDeclaration (form : List String → Stmt) (names : List String) : List Stmt :=
  if names.isEmpty then [] else [form (names.map spell)]

-- What stands at the start of a function body.
def bodyHeader (enclosing : List (List String)) (locals : List String)
    (body : List Scriptlet.Stmt) : List Stmt :=
  let (enclosed, global) := (outerNames locals body).partition (bindsLocally enclosing)
  outerDeclaration .globals global ++ outerDeclaration .nonlocals enclosed ++
    if body.isEmpty then [.pass] else []

def declarator (a : Analysis) (d : Declarator) : Stmt :=
  .assign (spell d.name) (d.value.elim .null (·.lower a))

end Target

mutual

-- `enclosing` holds the names that each enclosing function binds, innermost first. A function in
-- a function still belongs to the whole script.
def Stmt.lower (a : Analysis) (enclosing : List (List String)) : Stmt → List Target.Stmt
  | .declaration _ _ declarators => declarators.map (Target.declarator a)
  | .assignment _ name _ .assign value => [.assign (Target.spell name) (value.lower a)]
  | .assignment _ name _ (.compound op) value =>
    [Target.compound (Target.spell name) op (a.targetTag? value.id) (a.tag? value.id)
      (value.lower a)]
  | .function _ name _ parameters body =>
    let locals := Target.localNames parameters body
    let header := Target.bodyHeader enclosing locals body
    let function := .function (Target.spell name) (parameters.map fun p => Target.spell p.name)
      (header ++ Stmt.lowerAll a (locals :: enclosing) body)
    if enclosing.isEmpty then [function] else [.globals [Target.spell name], function]
  | .output _ value => [.expression (.call Target.showHelper [value.lower a])]
  | .throw _ value => [.ret (value.lower a)]
  | .expression _ value => [.expression (value.lower a)]

def Stmt.lowerAll (a : Analysis) (enclosing : List (List String)) : List Stmt → List Target.Stmt
  | [] => []
  | s :: rest => s.lower a enclosing ++ Stmt.lowerAll a enclosing rest

end

end Scriptlet
