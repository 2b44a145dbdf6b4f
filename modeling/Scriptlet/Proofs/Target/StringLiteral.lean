import Scriptlet.Proofs.Target.Texts
import Scriptlet.Proofs.Token.Written

/-!
String literals mean the text that they were made for. Python decodes them to it, and if the text
has no controls but line ends and tabs, a scan of the literal gives back the text as well.
-/

namespace Scriptlet

namespace Target

variable {c : Char} {written rest : List Char}

-- The value of a hexadecimal digit.
def hexDigit? (c : Char) : Option Nat :=
  if '0' ≤ c ∧ c ≤ '9' then some (c.toNat - '0'.toNat)
  else if 'a' ≤ c ∧ c ≤ 'f' then some (c.toNat - 'a'.toNat + 10)
  else if 'A' ≤ c ∧ c ≤ 'F' then some (c.toNat - 'A'.toNat + 10)
  else none

-- The character that two hexadecimal digits stand for.
def hexChar? (high low : Char) : Option Char :=
  (hexDigit? high).bind fun h => (hexDigit? low).map fun l => Char.ofNat (16 * h + l)

-- What Python takes the inside of a string literal for. A quote, a backslash or a line end has to
-- be escaped; of the escapes, those of one letter and those of two hexadecimal digits are known.
def decode? : List Char → Option (List Char)
  | [] => some []
  | '\\' :: 'x' :: high :: low :: rest =>
    (hexChar? high low).bind fun c => (decode? rest).map (c :: ·)
  | '\\' :: letter :: rest =>
    (shortEscapes.lookup letter).bind fun c => (decode? rest).map (c :: ·)
  | c :: rest =>
    if c = '\\' ∨ c = '"' ∨ c = '\n' ∨ c = '\r' then none else (decode? rest).map (c :: ·)

theorem hexChar?_digitChar {n : Nat} (small : n < 256) :
    hexChar? (n / 16).digitChar (n % 16).digitChar = some (Char.ofNat n) := by
  have digit : ∀ d < 16, hexDigit? d.digitChar = some d := by decide
  rw [hexChar?, digit _ (by omega), digit _ (by omega)]
  simp [Nat.div_add_mod]

theorem Quoting.decode?_append (quoting : Quoting c written) (rest : List Char) :
    decode? (written ++ rest) = (decode? rest).map (c :: ·) := by
  cases quoting with
  | plain shown free =>
    have other : ∀ d, isControl d = true → c ≠ d := by
      rintro d control rfl
      rw [shown] at control
      cases control
    simp [decode?, free, other '\n' rfl, other '\r' rfl]
  | @short letter listed =>
    have decoded : ∀ row ∈ shortEscapes,
        decode? ('\\' :: row.1 :: rest) = (decode? rest).map (row.2 :: ·) := by
      simp only [shortEscapes, List.forall_mem_cons]
      exact ⟨rfl, rfl, rfl, rfl, rfl, List.forall_mem_nil _⟩
    exact decoded _ listed
  | code small control other => simp [decode?, hexChar?_digitChar small]

theorem decode?_stringChars (cs : List Char) : decode? (cs.flatMap stringChar) = some cs := by
  induction cs with
  | nil => rfl
  | cons c cs ih =>
    rw [List.flatMap_cons, (stringChar_quoting c).decode?_append, ih, Option.map_some]

-- No quote stands in the text but behind a backslash that starts an escape.
inductive Enclosed : List Char → Prop where
  | nil : Enclosed []
  | plain {c : Char} {rest : List Char} (free : c ≠ '"' ∧ c ≠ '\\') (others : Enclosed rest) :
      Enclosed (c :: rest)
  | escape {c : Char} {rest : List Char} (others : Enclosed rest) : Enclosed ('\\' :: c :: rest)

theorem Quoting.enclosed_append (quoting : Quoting c written) (others : Enclosed rest) :
    Enclosed (written ++ rest) := by
  cases quoting with
  | plain shown free => exact .plain free others
  | short listed => exact .escape others
  | code small control other =>
    have digit : ∀ n < 16, n.digitChar ≠ '"' ∧ n.digitChar ≠ '\\' := by decide
    exact .escape (.plain (digit _ (by omega)) (.plain (digit _ (by omega)) others))

theorem enclosed_stringChars (cs : List Char) : Enclosed (cs.flatMap stringChar) := by
  induction cs with
  | nil => exact .nil
  | cons c cs ih => exact (stringChar_quoting c).enclosed_append ih

theorem Quoting.means (quoting : Quoting c written)
    (ordinary : isControl c = true → c = '\n' ∨ c = '\t' ∨ c = '\r') :
    Pattern.Means written [c] := by
  cases quoting with
  | plain shown free =>
    refine .plain ⟨free.2, free.1, ?_⟩ .nil
    rintro rfl
    cases shown
  | @short letter listed =>
    have meant : ∀ row ∈ shortEscapes, Pattern.escape? row.1 = some row.2 := by decide
    exact .escape (meant _ listed) .nil
  | code small control other =>
    obtain ⟨line, tab, carriage⟩ := other
    rcases ordinary control with same | same | same
    · exact absurd same line
    · exact absurd same tab
    · exact absurd same carriage

theorem means_stringChars {cs : List Char}
    (ordinary : ∀ c ∈ cs, isControl c = true → c = '\n' ∨ c = '\t' ∨ c = '\r') :
    Pattern.Means (cs.flatMap stringChar) cs :=
  .flatMap fun c member => (stringChar_quoting c).means (ordinary c member)

end Target

theorem Token.scan_literal {inner text : List Char} (means : Pattern.Means inner text)
    (position : Position) :
    scan ⟨'"' :: inner ++ ['"'], position⟩ =
      .ok [⟨.textLiteral, String.ofList text,
          ⟨position, position.advance ('"' :: inner ++ ['"'])⟩⟩,
        eof (position.advance ('"' :: inner ++ ['"']))] := by
  refine scan_whole (by simp) (?_ : front _ = .ok (some _, _))
  rw [front_some (means.first?_eq []), means.token?_eq]
  rfl

namespace Target

-- The literal of a text is on one line, without a control, and it ends at its last quote. Both
-- Python and the scanner read the text in it; the scanner knows no codes, so controls that are
-- written as such are Python's alone.
theorem stringLiteral_decodes (v : String) :
    (∃ inside, (stringLiteral v).toList = '"' :: inside ++ ['"'] ∧
      (∀ c ∈ inside, isControl c = false) ∧ Enclosed inside ∧ decode? inside = some v.toList) ∧
    ((∀ c ∈ v.toList, isControl c = true → c = '\n' ∨ c = '\t' ∨ c = '\r') →
      Token.ofSource (stringLiteral v) =
        .ok [⟨.textLiteral, v, ⟨.first, Position.first.advance (stringLiteral v).toList⟩⟩,
          .eof (Position.first.advance (stringLiteral v).toList)]) := by
  have written : (stringLiteral v).toList = '"' :: v.toList.flatMap stringChar ++ ['"'] :=
    String.toList_ofList
  constructor
  · refine ⟨_, written, ?_, enclosed_stringChars _, decode?_stringChars _⟩
    intro c member
    obtain ⟨source, _, inside⟩ := List.mem_flatMap.1 member
    exact (stringChar_quoting source).visible c inside
  · intro ordinary
    rw [Token.ofSource, Reader.ofString, written,
      Token.scan_literal (means_stringChars ordinary), String.ofList_toList]

-- Backslashes before a letter and before a quote, then what the letters stand for.
def slashedText : String := "\\n\\\"\n\t\ré"

theorem slashedText_scans :
    (∀ c ∈ slashedText.toList, isControl c = true → c = '\n' ∨ c = '\t' ∨ c = '\r') ∧
    stringLiteral slashedText = "\"\\\\n\\\\\\\"\\n\\t\\ré\"" ∧
    Token.ofSource (stringLiteral slashedText) =
      .ok [⟨.textLiteral, slashedText,
          ⟨.first, Position.first.advance (stringLiteral slashedText).toList⟩⟩,
        .eof (Position.first.advance (stringLiteral slashedText).toList)] := by
  have ordinary : ∀ c ∈ slashedText.toList,
      isControl c = true → c = '\n' ∨ c = '\t' ∨ c = '\r' := by
    simp [isControl, slashedText]
  exact ⟨ordinary, by decide, (stringLiteral_decodes _).2 ordinary⟩

end Target

end Scriptlet
