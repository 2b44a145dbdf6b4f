import Scriptlet.Compile

namespace Scriptlet

open Target

-- The text of a script with this body.
def Target.scriptText (options : CompileOptions) (body : List Target.Stmt) : String :=
  let width := max options.indentWidth 1
  let lines := Target.Stmt.allLines width 0 body
  Script.join ([Script.preamble width, String.intercalate "\n" lines] ++
    if options.entryGuard then [Script.entryGuard width] else [])

theorem Target.Stmt.allLines_append {width depth : Nat} (first second : List Target.Stmt) :
    Target.Stmt.allLines width depth (first ++ second) =
      Target.Stmt.allLines width depth first ++ Target.Stmt.allLines width depth second := by
  induction first with
  | nil => rfl
  | cons s first ih => simp [Target.Stmt.allLines, ih]

theorem Script.foldl_emit (body : List Stmt) (s : Script) :
    (body.foldl emit s).lines =
      s.lines ++
        Target.Stmt.allLines s.width s.depth (Stmt.lowerAll s.analysis s.enclosing body) := by
  induction body generalizing s with
  | nil => simp [Stmt.lowerAll, Target.Stmt.allLines]
  | cons first body ih =>
    rw [List.foldl_cons, ih]
    simp [emit, Stmt.lowerAll, Target.Stmt.allLines_append]

theorem generate_eq (program : Program) (analysis : Analysis) (options : CompileOptions) :
    generate program analysis options =
      scriptText options (Stmt.lowerAll analysis [] program.body) := by
  unfold generate Script.render scriptText
  rw [Script.foldl_emit]
  rfl

end Scriptlet
