import Scriptlet.Source.Reader
import Scriptlet.Token.Pattern

/-!
From source text to tokens. At each place the first pattern of the table that fits decides; the
scan ends with the first fault, or with a token that marks the end of the input.
-/

namespace Scriptlet

theorem Pattern.match?_takes {p : Pattern} {cs lexeme : List Char} (member : p ∈ table)
    (h : p.match? cs = some lexeme) : lexeme ≠ [] ∧ lexeme <+: cs := by
  unfold match? at h
  split at h
  · split at h
    · cases h
      exact ⟨by simp, List.cons_prefix_cons.2 ⟨rfl, List.takeWhile_prefix _⟩⟩
    · cases h
  · exact negated?_takes (fun _ _ => pointMatch?_takes) h
  · exact pointMatch?_takes h
  · exact negated?_takes (fun _ _ => run?_takes) h
  · exact run?_takes h
  · exact run?_takes h
  · cases h
    exact ⟨by simp, List.cons_prefix_cons.2 ⟨rfl, List.takeWhile_prefix _⟩⟩
  · obtain ⟨taken, found, rfl⟩ := Option.map_eq_some_iff.1 h
    exact ⟨by simp, List.cons_prefix_cons.2 ⟨rfl, (textRest?_takes found).2⟩⟩
  · cases h
    exact ⟨by simp, List.cons_prefix_cons.2 ⟨rfl, List.nil_prefix⟩⟩
  · split at h
    · rename_i fits
      cases h
      refine ⟨?_, List.isPrefixOf_iff_prefix.1 fits⟩
      rintro rfl
      simp [table, symbolRows] at member
    · cases h
  · cases h

theorem Pattern.first?_takes {p : Pattern} {cs lexeme : List Char}
    (h : first? cs = some (p, lexeme)) : lexeme ≠ [] ∧ lexeme <+: cs := by
  obtain ⟨q, member, found⟩ := List.exists_of_findSome?_eq_some h
  obtain ⟨taken, fits, same⟩ := Option.map_eq_some_iff.1 found
  cases same
  exact match?_takes member fits

-- How many bytes the rule of a pattern reads: those of the lexeme, or of the symbol that it writes.
def Pattern.byteCount : Pattern → List Char → Nat
  | .symbol _ _ value, _ => Reader.byteCount value
  | _, lexeme => Reader.byteCount lexeme

theorem Pattern.first?_byteCount {p : Pattern} {cs lexeme : List Char}
    (h : first? cs = some (p, lexeme)) : p.byteCount lexeme = Reader.byteCount lexeme := by
  obtain ⟨q, member, found⟩ := List.exists_of_findSome?_eq_some h
  obtain ⟨taken, fits, same⟩ := Option.map_eq_some_iff.1 found
  cases same
  cases p with
  | symbol spelling kind value =>
    simp only [match?, Option.ite_none_right_eq_some, Option.some.injEq] at fits
    rw [byteCount, (symbol_listed member).1, fits.2]
  | _ => rfl

namespace Token

-- What is at the front of the input: a token, or `none` for blanks and comments, and its length.
def front (r : Reader) : Except Fault (Option Token × Nat) :=
  match Pattern.first? r.rest with
  | none => .error ⟨.unrecognisedToken (String.ofList (r.rest.take 1)), r.position⟩
  | some (p, lexeme) =>
    let bytes := p.byteCount lexeme
    match p.token? lexeme ⟨r.position, (r.advanceBytes bytes).position⟩ with
    | .error cause => .error ⟨cause, r.position⟩
    | .ok token => .ok (token, Reader.charsInBytes bytes r.rest)

theorem front_none {r : Reader} (found : Pattern.first? r.rest = none) :
    front r = .error ⟨.unrecognisedToken (String.ofList (r.rest.take 1)), r.position⟩ := by
  rw [front, found]

theorem front_some {r : Reader} {p : Pattern} {lexeme : List Char}
    (found : Pattern.first? r.rest = some (p, lexeme)) : front r =
      ((p.token? lexeme ⟨r.position, r.position.advance lexeme⟩).mapError fun cause =>
        Fault.mk cause r.position).map fun token => (token, lexeme.length) := by
  obtain ⟨cs, position⟩ := r
  obtain ⟨-, rest, rfl⟩ := Pattern.first?_takes found
  unfold front
  dsimp only at found ⊢
  rw [found]
  dsimp only
  rw [Pattern.first?_byteCount found, Reader.advanceBytes_append, Reader.charsInBytes_append]
  cases p.token? lexeme ⟨position, position.advance lexeme⟩ <;> rfl

theorem front_length {r : Reader} {token : Option Token} {n : Nat}
    (h : front r = .ok (token, n)) : 0 < n ∧ n ≤ r.rest.length := by
  cases found : Pattern.first? r.rest with
  | none =>
    rw [front_none found] at h
    cases h
  | some taken =>
    obtain ⟨p, lexeme⟩ := taken
    rw [front_some found] at h
    cases made : p.token? lexeme ⟨r.position, r.position.advance lexeme⟩ with
    | error cause =>
      rw [made] at h
      cases h
    | ok token =>
      rw [made] at h
      cases h
      obtain ⟨nonempty, part⟩ := Pattern.first?_takes found
      exact ⟨List.length_pos_iff.2 nonempty, part.length_le⟩

def scan (r : Reader) : Except Fault (List Token) :=
  if r.rest = [] then .ok [eof r.position]
  else
    match _h : front r with
    | .error fault => .error fault
    | .ok (token, n) =>
      match scan (r.advance n) with
      | .error fault => .error fault
      | .ok tokens => .ok (token.toList ++ tokens)
termination_by r.rest.length
decreasing_by
  have := front_length _h
  rw [Reader.advance_length]
  omega

-- The tokens of a source text, the end mark included.
def ofSource (source : String) : Except Fault (List Token) := scan (.ofString source)

end Token

end Scriptlet
