import Scriptlet.Target.Lower
import Scriptlet.Target.Print

/-!
A script in the making: the lines so far, and where the next one goes. The finished script is the
helper that prints values, the lines, and an entry guard.
-/

namespace Scriptlet

structure Script where
  analysis : Analysis
  lines : List String
  depth : Nat
  width : Nat
  guard : Bool
  -- The names bound by each enclosing function, innermost first.
  enclosing : List (List String)

namespace Script

def start (a : Analysis) : Script := ⟨a, [], 0, 4, true, []⟩

-- An indentation of nothing would lose the nesting.
def withWidth (s : Script) (width : Nat) : Script := { s with width := max width 1 }

def withGuard (s : Script) (guard : Bool) : Script := { s with guard := guard }

def addLine (s : Script) (text : String) : Script :=
  { s with lines := s.lines ++ [Target.indented s.width s.depth text] }

def indent (s : Script) : Script := { s with depth := s.depth + 1 }

def dedent (s : Script) : Script := { s with depth := s.depth - 1 }

def enterFunction (s : Script) (locals : List String) : Script :=
  { s with enclosing := locals :: s.enclosing }

def exitFunction (s : Script) : Script := { s with enclosing := s.enclosing.drop 1 }

def functionDepth (s : Script) : Nat := s.enclosing.length

def bindsLocally (s : Script) (name : String) : Bool := Target.bindsLocally s.enclosing name

def emit (s : Script) (statement : Stmt) : Script :=
  { s with
    lines := s.lines ++
      Target.Stmt.allLines s.width s.depth (statement.lower s.analysis s.enclosing) }

-- Lines with their level of nesting.
def block (width : Nat) (lines : List (Nat × String)) : String :=
  String.intercalate "\n" (lines.map fun line => Target.indented width line.1 line.2)

def preamble (width : Nat) : String :=
  block width
    [(0, "def " ++ Target.showHelper ++ "(value, emit=True):"),
     (1, "if value is True:"),
     (2, "text = \"YES\""),
     (1, "elif value is False:"),
     (2, "text = \"NO\""),
     (1, "elif value is None:"),
     (2, "text = \"empty\""),
     (1, "elif isinstance(value, list):"),
     (2, "text = \"[\" + \", \".join(" ++ Target.showHelper ++
        "(item, False) for item in value) + \"]\""),
     (1, "else:"),
     (2, "text = str(value)"),
     (1, "if emit:"),
     (2, "print(text)"),
     (1, "return text")]

def entryGuard (width : Nat) : String :=
  block width [(0, "if __name__ == \"__main__\":"), (1, "pass")]

-- The parts of a script with a blank line between them; empty parts are left out.
def join (sections : List String) : String :=
  String.intercalate "\n\n" (sections.filter (· != "")) ++ "\n"

-- The text of the script, after the statements of a program have been added.
def render (s : Script) (p : Program) : String :=
  let lines := (p.body.foldl emit s).lines
  join ([preamble s.width, String.intercalate "\n" lines] ++
    if s.guard then [entryGuard s.width] else [])

end Script

end Scriptlet
