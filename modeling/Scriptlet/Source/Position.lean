/-!
Places in a source text. Lines and columns count from one, a column is one character wide, and
only a line feed starts a new line. `Position.null` stands for "nowhere".
-/

namespace Scriptlet

structure Position where
  line : Nat
  column : Nat
deriving DecidableEq, Inhabited

namespace Position

def null : Position := ⟨0, 0⟩

-- Where every source text begins.
def first : Position := ⟨1, 1⟩

-- The position just after `c`, when `c` stands at `p`.
def step (p : Position) (c : Char) : Position :=
  if c = '\n' then ⟨p.line + 1, 1⟩ else ⟨p.line, p.column + 1⟩

-- The position just after `cs`, when `cs` starts at `p`.
def advance (p : Position) (cs : List Char) : Position := cs.foldl step p

def text (p : Position) : String := s!"{p.line}:{p.column}"

@[simp] theorem advance_nil (p : Position) : p.advance [] = p := rfl

@[simp] theorem advance_cons (p : Position) (c : Char) (cs : List Char) :
    p.advance (c :: cs) = (p.step c).advance cs := rfl

theorem advance_append (p : Position) (xs ys : List Char) :
    p.advance (xs ++ ys) = (p.advance xs).advance ys := by
  simp [advance, List.foldl_append]

end Position

-- A stretch of source; `stop` is the position just after its last character.
structure Span where
  start : Position
  stop : Position
deriving DecidableEq, Inhabited

-- From the start of the first stretch to the end of the second.
def Span.to (first second : Span) : Span := ⟨first.start, second.stop⟩

end Scriptlet
