import Scriptlet.Analysis.Reduction
import Scriptlet.Tree.Stmt
import Std.Data.TreeMap

/-!
The check of a program: one pass over its statements in order, function bodies included. It
collects diagnostics and goes on after each of them.
-/

namespace Scriptlet

abbrev NodeValues := Std.TreeMap NodeId Value

structure Analysis where
  symbols : SymbolTable
  diagnostics : List Diagnostic
  -- The value of every expression node.
  values : NodeValues
  -- The value a variable had just before a compound assignment, filed under the node of the
  -- expression on the right.
  targets : NodeValues

namespace Analysis

def empty : Analysis := ⟨.empty, [], ∅, ∅⟩

-- Whether there is nothing to complain about.
def accepted (a : Analysis) : Bool := a.diagnostics.isEmpty

def report (a : Analysis) (d : Diagnostic) : Analysis :=
  { a with diagnostics := a.diagnostics ++ [d] }

def note (values : NodeValues) (notes : List (NodeId × Value)) : NodeValues :=
  notes.foldl (fun values row => values.insert row.1 row.2) values

-- Takes over what a reduction found.
def absorb (a : Analysis) (r : Reduction) : Analysis :=
  { a with diagnostics := a.diagnostics ++ r.diagnostics, values := note a.values r.notes }

def evaluate (a : Analysis) (e : Expr) : Analysis := a.absorb (e.reduce a.symbols)

def assign (a : Analysis) (name : String) (value : Value) : Analysis :=
  { a with symbols := a.symbols.assign name value }

-- Declares a name in the current scope and gives it a value. The name of a function is taken
-- everywhere.
def declare (a : Analysis) (name : String) (fixed : Bool) (position : Position)
    (repeated : Diagnostic) (value : Value) : Analysis :=
  if (a.symbols.function? name).isSome then a.report (.nameOfFunction name position)
  else
    match a.symbols.declare? name fixed position with
    | none => a.report repeated
    | some symbols => { a with symbols := symbols }.assign name value

-- The first value is found before the name exists.
def checkDeclarator (fixed : Bool) (a : Analysis) (d : Declarator) : Analysis :=
  let position := d.span.start
  let repeated := .variableRepeated fixed d.name position
  match d.value with
  | none => a.declare d.name fixed position repeated .empty
  | some e => (a.evaluate e).declare d.name fixed position repeated (e.reduce a.symbols).value

-- The new value of a variable and what is wrong with it.
def combine (op : Arithmetic) (previous value : Value) (position : Position) :
    Value × List Diagnostic :=
  match Value.applyBinary (.arithmetic op) previous value with
  | .ok combined => (combined, [])
  | .error failure => (.unknown, [failure.diagnostic position])

def checkAssignment (a : Analysis) (name : String) (position : Position) (op : AssignOp)
    (e : Expr) : Analysis :=
  let value := (e.reduce a.symbols).value
  let after := a.evaluate e
  match a.symbols.lookup? name with
  | none => after.report (.undeclaredVariable name position)
  | some symbol =>
    if symbol.fixed then after.report (.fixedReassigned name position)
    else
      match op with
      | .assign => after.assign name value
      | .compound op =>
        let (combined, flaws) := combine op symbol.value value e.span.start
        { after with
          diagnostics := after.diagnostics ++ flaws
          targets := after.targets.insert e.id symbol.value }.assign name combined

-- A function takes its name for the whole program, unless an open scope has a variable of that
-- name or an earlier function has it.
def register (a : Analysis) (name : String) (parameters : List String) (position : Position) :
    Analysis :=
  if (a.symbols.global? name).isSome then a.report (.functionShadowsGlobal name position)
  else if (a.symbols.lookup? name).isSome then a.report (.functionShadowsLocal name position)
  else
    match a.symbols.declareFunction? name parameters position with
    | none => a.report (.functionRepeated name position)
    | some symbols => { a with symbols := symbols }

def checkParameter (function : String) (a : Analysis) (p : Parameter) : Analysis :=
  let position := p.span.start
  a.declare p.name false position (.parameterRepeated function p.name position) .unknown

def enter (a : Analysis) : Analysis := { a with symbols := a.symbols.enter }

def exit (a : Analysis) : Analysis := { a with symbols := a.symbols.exit }

mutual

-- `inFunction` says whether the statement stands in the body of a function.
def check (inFunction : Bool) (a : Analysis) : Stmt → Analysis
  | .declaration _ fixed declarators => declarators.foldl (checkDeclarator fixed) a
  | .assignment _ name nameSpan op value => a.checkAssignment name nameSpan.start op value
  | .function _ name nameSpan parameters body =>
    let registered := a.register name (parameters.map (·.name)) nameSpan.start
    (checkAll true (parameters.foldl (checkParameter name) registered.enter) body).exit
  | .output _ value => a.evaluate value
  | .throw span value =>
    if inFunction then a.evaluate value
    else (a.evaluate value).report (.misplacedThrow span.start)
  | .expression _ value => a.evaluate value

-- A body is checked whether or not its function could take its name.
def checkAll (inFunction : Bool) (a : Analysis) : List Stmt → Analysis
  | [] => a
  | s :: rest => checkAll inFunction (a.check inFunction s) rest

end

def ofProgram (p : Program) : Analysis := empty.checkAll false p.body

end Analysis

end Scriptlet
