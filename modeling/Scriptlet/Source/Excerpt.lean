import Scriptlet.Source.Position
import Scriptlet.Text.Blank
import Scriptlet.Text.Split

/-!
The report of a problem: a headline, the place, and the line of source with a caret under the
character in question. The line is shown without the spaces and tabs at its start, and the caret
moves with it.
-/

namespace Scriptlet.Excerpt

def dropReturn (line : List Char) : List Char :=
  if line.getLast? = some '\r' then line.dropLast else line

-- The line of the given number, counted from one, without its line end.
def line? (source : String) (number : Nat) : Option String :=
  match number with
  | 0 => none
  | n + 1 => ((Text.split '\n' source.toList)[n]?).map fun line => String.ofList (dropReturn line)

def isIndent (c : Char) : Bool := c == ' ' || c == '\t'

def spaces (n : Nat) : String := String.ofList (List.replicate n ' ')

-- The widest padding that a width known only at run time may ask for.
def widthLimit : Nat := 65535

-- Dashes up to the caret, for a caret within `widthLimit`.
def caret (column removed : Nat) : String :=
  String.ofList (List.replicate (column - 1 - removed) '-' ++ ['^'])

-- The three lines below the headline and the place.
def body (line : String) (position : Position) : String :=
  let number := toString position.line
  let gutter := spaces (number.length + 1) ++ "|"
  let indent := line.toList.takeWhile isIndent
  let shown := Text.trimEnd (line.toList.dropWhile isIndent)
  gutter ++ "\n" ++ number ++ " | " ++ String.ofList shown ++ "\n" ++
    gutter ++ " " ++ caret position.column indent.length ++ "\n"

def render (source file : String) (position : Position) (headline : String) : String :=
  let top := s!"Error: {headline}\n-> {file}:{position.text}\n"
  match line? source position.line with
  | none => top
  | some line => top ++ body line position

end Scriptlet.Excerpt
