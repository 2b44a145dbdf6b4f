/-!
Text cut at every occurrence of a character. There is one piece more than there are cuts.
-/

namespace Scriptlet.Text

def split (mark : Char) : List Char → List (List Char)
  | [] => [[]]
  | c :: cs =>
    if c = mark then [] :: split mark cs
    else
      match split mark cs with
      | [] => [[c]]
      | piece :: pieces => (c :: piece) :: pieces

theorem split_ne_nil (mark : Char) (cs : List Char) : split mark cs ≠ [] := by
  induction cs with
  | nil => simp [split]
  | cons c cs ih =>
    unfold split
    split
    · simp
    · split <;> simp

end Scriptlet.Text
