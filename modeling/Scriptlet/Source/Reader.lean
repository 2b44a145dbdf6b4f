import Scriptlet.Source.Position

namespace Scriptlet

structure Reader where
  rest : List Char
  position : Position

namespace Reader

def ofString (source : String) : Reader := ⟨source.toList, .first⟩

def atEnd (r : Reader) : Bool := r.rest.isEmpty

-- Reads the next `n` characters, or all that are left.
def advance (r : Reader) (n : Nat) : Reader :=
  ⟨r.rest.drop n, r.position.advance (r.rest.take n)⟩

-- The length of a text in bytes of its UTF-8 form.
def byteCount : List Char → Nat
  | [] => 0
  | c :: cs => c.utf8Size + byteCount cs

-- How many whole characters the first `n` bytes of the UTF-8 form of `cs` hold.
def charsInBytes : Nat → List Char → Nat
  | _, [] => 0
  | n, c :: cs => if c.utf8Size ≤ n then charsInBytes (n - c.utf8Size) cs + 1 else 0

-- Reads the characters that the next `n` bytes of the UTF-8 form hold.
def advanceBytes (r : Reader) (n : Nat) : Reader := r.advance (charsInBytes n r.rest)

theorem charsInBytes_append (xs ys : List Char) :
    charsInBytes (byteCount xs) (xs ++ ys) = xs.length := by
  induction xs with
  | nil =>
    cases ys with
    | nil => rfl
    | cons c ys =>
      have positive : ¬ c.utf8Size ≤ byteCount [] := Nat.not_le.2 c.utf8Size_pos
      rw [List.nil_append, charsInBytes, if_neg positive]
      rfl
  | cons c xs ih =>
    rw [List.cons_append, charsInBytes, byteCount, if_pos (Nat.le_add_right ..),
      Nat.add_sub_cancel_left, ih]
    rfl

theorem advanceBytes_append (xs ys : List Char) (position : Position) :
    (Reader.mk (xs ++ ys) position).advanceBytes (byteCount xs) = ⟨ys, position.advance xs⟩ := by
  rw [advanceBytes, charsInBytes_append, advance]
  dsimp only
  rw [List.drop_left, List.take_left]

theorem advance_length (r : Reader) (n : Nat) :
    (r.advance n).rest.length = r.rest.length - n := by simp [advance]

end Reader

end Scriptlet
