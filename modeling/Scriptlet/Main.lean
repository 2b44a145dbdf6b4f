import Scriptlet.Command

open Scriptlet

def failureReason : IO.Error → String
  | .noFileOrDirectory _ code _ => s!"No such file or directory (os error {code})"
  | .inappropriateType _ code _ =>
    if code == 20 then s!"Not a directory (os error {code})"
    else s!"Is a directory (os error {code})"
  | .permissionDenied _ code _ => s!"Permission denied (os error {code})"
  | other => toString other

def readSource (path : String) : IO (Except String String) := do
  try
    let bytes ← IO.FS.readBinFile path
    match String.fromUTF8? bytes with
    | some source => return .ok source
    | none => return .error "stream did not contain valid UTF-8"
  catch failure => return .error (failureReason failure)

def deliver (outcome : Command.Outcome) : IO UInt32 := do
  IO.eprint outcome.stderr
  IO.print outcome.stdout
  return outcome.exitCode

def main (arguments : List String) : IO UInt32 := do
  let outcome ← Command.answer readSource arguments
  match outcome.file with
  | none => deliver outcome
  | some (path, text) =>
    try
      IO.FS.writeFile path text
      deliver outcome
    catch failure => deliver (outcome.unwritable path (failureReason failure))
