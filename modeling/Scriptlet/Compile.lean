import Scriptlet.Grammar.Statement
import Scriptlet.Target.Script
import Scriptlet.Token.Scan

namespace Scriptlet

structure CompileOptions where
  indentWidth : Nat := 4
  allowErrors : Bool := false
  entryGuard : Bool := true

structure Compilation where
  program : Program
  analysis : Analysis
  python : String

def Program.ofSource (source : String) : Except Fault Program :=
  match Token.ofSource source with
  | .error fault => .error fault
  | .ok tokens => Program.ofTokens tokens

-- Reads and checks a source text. Diagnostics are no fault here: they are in the analysis.
def check (source : String) : Except Fault (Program × Analysis) :=
  match Program.ofSource source with
  | .error fault => .error fault
  | .ok program => .ok (program, .ofProgram program)

-- The Python for a program, whatever the check had to say.
def generate (program : Program) (analysis : Analysis) (options : CompileOptions) : String :=
  (((Script.start analysis).withWidth options.indentWidth).withGuard options.entryGuard).render
    program

-- Unless diagnostics are allowed, the first of them is where the compilation fails.
def compile (source : String) (options : CompileOptions) : Except Fault Compilation :=
  match check source with
  | .error fault => .error fault
  | .ok (program, analysis) =>
    match analysis.diagnostics, options.allowErrors with
    | first :: rest, false => .error ⟨.semanticErrors (rest.length + 1), first.position⟩
    | _, _ => .ok ⟨program, analysis, generate program analysis options⟩

theorem check_eq_ok {source : String} {program : Program} {analysis : Analysis} :
    check source = .ok (program, analysis) ↔
      Program.ofSource source = .ok program ∧ analysis = .ofProgram program := by
  unfold check
  split
  · rename_i failed
    simp [failed]
  · rename_i read
    simp [read]
    grind

theorem compile_ok {source : String} {options : CompileOptions} {compiled : Compilation}
    (done : compile source options = .ok compiled) :
    check source = .ok (compiled.program, compiled.analysis) ∧
      compiled.python = generate compiled.program compiled.analysis options := by
  unfold compile at done
  split at done
  · cases done
  · rename_i program analysis checked
    split at done
    · cases done
    · cases done
      exact ⟨checked, rfl⟩

end Scriptlet
