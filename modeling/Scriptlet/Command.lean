import Scriptlet.Compile
import Scriptlet.Source.Excerpt

/-!
The command line: one source file in, the script on standard output or in a file, problems on
standard error.
-/

namespace Scriptlet.Command

structure Invocation where
  input : String
  output : Option String
  allowErrors : Bool
deriving DecidableEq

inductive UsageError where
  | missingFileName (option : String)
  | unknownOption (option : String)
  | unexpectedArgument (argument : String)
  | noInput
deriving DecidableEq

def UsageError.message : UsageError → String
  | .missingFileName option => s!"`{option}` needs a file name"
  | .unknownOption option => s!"unknown option `{option}`"
  | .unexpectedArgument argument => s!"unexpected argument `{argument}`"
  | .noInput => "no input file"

-- What has been seen so far of an invocation.
structure Draft where
  input : Option String := none
  output : Option String := none
  allowErrors : Bool := false

def isOutputOption (argument : String) : Bool := argument == "-o" || argument == "--output"

-- Takes one argument that is not about the output.
def Draft.take (d : Draft) (argument : String) : Except UsageError Draft :=
  if argument = "--allow-errors" then .ok { d with allowErrors := true }
  else if argument.toList.head? = some '-' then .error (.unknownOption argument)
  else if d.input.isSome then .error (.unexpectedArgument argument)
  else .ok { d with input := some argument }

-- Reads the arguments from left to right; the last file name for the output counts.
def Draft.takeAll (d : Draft) : List String → Except UsageError Draft
  | [] => .ok d
  | [argument] =>
    if isOutputOption argument then .error (.missingFileName argument) else d.take argument
  | argument :: next :: rest =>
    if isOutputOption argument then Draft.takeAll { d with output := some next } rest
    else
      match d.take argument with
      | .error e => .error e
      | .ok d => d.takeAll (next :: rest)

def Invocation.ofArguments (arguments : List String) : Except UsageError Invocation :=
  match Draft.takeAll {} arguments with
  | .error e => .error e
  | .ok d =>
    match d.input with
    | none => .error .noInput
    | some input => .ok ⟨input, d.output, d.allowErrors⟩

-- The last part of a path; a path without one stands for itself.
def fileName (path : String) : String :=
  let parts := (Text.split '/' path.toList).filter fun part => part != [] && part != ['.']
  match parts.getLast? with
  | none => path
  | some last => if last = ['.', '.'] then path else String.ofList last

structure Outcome where
  exitCode : UInt32
  stdout : String := ""
  stderr : String := ""
  -- A file that is to be written, and its text.
  file : Option (String × String) := none

def usage : String := "usage: minimac <file> [-o <out.py>] [--allow-errors]"

def misused (e : UsageError) : Outcome :=
  { exitCode := 2, stderr := e.message ++ "\n" ++ usage ++ "\n" }

def unreadable (path reason : String) : Outcome :=
  { exitCode := 1, stderr := s!"failed to read {path}: {reason}\n" }

-- What becomes of an outcome whose file could not be written.
def Outcome.unwritable (o : Outcome) (path reason : String) : Outcome :=
  { exitCode := 1, stderr := o.stderr ++ s!"failed to write {path}: {reason}\n" }

def reports (source file : String) (diagnostics : List Diagnostic) : String :=
  String.join (diagnostics.map fun d => Excerpt.render source file d.position d.headline)

def refusal (count : Nat) : String :=
  s!"{count} semantic error(s); no code generated (pass --allow-errors to override)\n"

-- The work on a source text that could be read.
def run (invocation : Invocation) (source : String) : Outcome :=
  let file := fileName invocation.input
  match check source with
  | .error fault =>
    { exitCode := 1, stderr := Excerpt.render source file fault.position fault.headline }
  | .ok (program, analysis) =>
    let reported := reports source file analysis.diagnostics
    if !analysis.accepted && !invocation.allowErrors then
      { exitCode := 1, stderr := reported ++ refusal analysis.diagnostics.length }
    else
      let python := generate program analysis {}
      match invocation.output with
      | none => { exitCode := 0, stdout := python, stderr := reported }
      | some path => { exitCode := 0, stderr := reported, file := some (path, python) }

-- The whole command, where `read` gives the text of a file or the reason why there is none.
def answer {m : Type → Type} [Monad m] (read : String → m (Except String String))
    (arguments : List String) : m Outcome := do
  match Invocation.ofArguments arguments with
  | .error e => return misused e
  | .ok invocation =>
    match ← read invocation.input with
    | .error reason => return unreadable invocation.input reason
    | .ok source => return run invocation source

end Scriptlet.Command
