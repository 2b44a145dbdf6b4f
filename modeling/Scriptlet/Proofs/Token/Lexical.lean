import Scriptlet.Proofs.Grammar.Rules
import Scriptlet.Token.Scan

/-!
What the tokens of a source text can look like. Scanning gives a list of lexical tokens with one
end mark after it, and no other.
-/

namespace Scriptlet

-- A word that can name a variable or a function.
structure Pattern.IsIdentifier (word : List Char) : Prop where
  starts : ∃ c cs, word = c :: cs ∧ ('a' ≤ c ∧ c ≤ 'z') ∧ ∀ d ∈ cs, isWordChar d = true
  short : word.length ≤ maxIdentifierLength
  free : reserved.lookup (String.ofList word) = none

-- The kind and value of a token that is not the end mark.
inductive Token.Lexical : Token → Prop where
  | symbol {kind spelling span} (listed : (kind, spelling) ∈ Pattern.symbols) :
      Lexical ⟨kind, String.ofList spelling, span⟩
  | reserved {kind word span} (listed : (word, kind) ∈ Pattern.reserved) :
      Lexical ⟨kind, word, span⟩
  | identifier {word span} (named : Pattern.IsIdentifier word) :
      Lexical ⟨.identifier, String.ofList word, span⟩
  | integer {digits span} (digital : Integer.AreDigits digits)
      (short : Pattern.integerFits digits = true) :
      Lexical ⟨.integerLiteral, String.ofList digits, span⟩
  | negative {digits span} (digital : Integer.AreDigits digits)
      (short : Pattern.integerFits digits = true) :
      Lexical ⟨.negIntegerLiteral, String.ofList ('~' :: digits), span⟩
  | point {whole fraction span} (digital : Integer.AreDigits whole)
      (fractional : Integer.AreDigits fraction)
      (short : whole.length ≤ Pattern.maxDigits ∧ fraction.length ≤ Pattern.maxDigits) :
      Lexical ⟨.pointLiteral, String.ofList (whole ++ '.' :: fraction), span⟩
  | negativePoint {whole fraction span} (digital : Integer.AreDigits whole)
      (fractional : Integer.AreDigits fraction)
      (short : whole.length ≤ Pattern.maxDigits ∧ fraction.length ≤ Pattern.maxDigits) :
      Lexical ⟨.negPointLiteral, String.ofList ('~' :: whole ++ '.' :: fraction), span⟩
  | text {value span} : Lexical ⟨.textLiteral, value, span⟩

namespace Token

theorem Lexical.kind_ne_eof {token : Token} (lexical : token.Lexical) : token.kind ≠ .eof := by
  have symbolic : ∀ row ∈ Pattern.symbols, row.1 ≠ .eof := by decide
  have worded : ∀ row ∈ Pattern.reserved, row.2 ≠ .eof := by decide
  cases lexical with
  | symbol listed => exact symbolic _ listed
  | reserved listed => exact worded _ listed
  | _ => simp

theorem Lexical.congr {t other : Token} (lexical : other.Lexical) (kind : other.kind = t.kind)
    (value : other.value = t.value) : t.Lexical := by
  obtain ⟨_, _, span⟩ := t
  subst kind value
  cases lexical with
  | symbol listed => exact .symbol listed
  | reserved listed => exact .reserved listed
  | identifier named => exact .identifier named
  | integer digital short => exact .integer digital short
  | negative digital short => exact .negative digital short
  | point digital fractional short => exact .point digital fractional short
  | negativePoint digital fractional short => exact .negativePoint digital fractional short
  | text => exact .text

end Token

namespace Pattern

theorem run?_all {p : Char → Bool} {cs lexeme : List Char} (h : run? p cs = some lexeme) :
    ∀ c ∈ lexeme, p c = true := by
  unfold run? at h
  split at h
  · cases h
  · cases h
    exact List.all_eq_true.1 List.all_takeWhile

theorem run?_digits {cs lexeme : List Char} (h : run? Integer.isDigit cs = some lexeme) :
    Integer.AreDigits lexeme := ⟨(run?_takes h).1, run?_all h⟩

theorem pointMatch?_parts {cs lexeme : List Char} (h : pointMatch? cs = some lexeme) :
    ∃ whole fraction, lexeme = whole ++ '.' :: fraction ∧ Integer.AreDigits whole ∧
      Integer.AreDigits fraction := by
  unfold pointMatch? at h
  obtain ⟨whole, found, h⟩ := Option.bind_eq_some_iff.1 h
  split at h
  · obtain ⟨fraction, fractional, rfl⟩ := Option.map_eq_some_iff.1 h
    exact ⟨whole, fraction, rfl, run?_digits found, run?_digits fractional⟩
  · cases h

theorem negated?_parts {inner : List Char → Option (List Char)} {cs lexeme : List Char}
    (h : negated? inner cs = some lexeme) :
    ∃ rest taken, inner rest = some taken ∧ lexeme = '~' :: taken := by
  unfold negated? at h
  split at h
  · obtain ⟨taken, found, rfl⟩ := Option.map_eq_some_iff.1 h
    exact ⟨_, taken, found, rfl⟩
  · cases h

theorem digit_ne_point {c : Char} (h : Integer.isDigit c = true) : (c != '.') = true := by
  rw [bne_iff_ne]
  rintro rfl
  exact absurd h (by decide)

theorem pointFits_iff {whole fraction : List Char} (digital : Integer.AreDigits whole) :
    pointFits (whole ++ '.' :: fraction) = true ↔
      whole.length ≤ maxDigits ∧ fraction.length ≤ maxDigits := by
  have all : ∀ c ∈ whole, (c != '.') = true := fun c member => digit_ne_point (digital.2 c member)
  simp [pointFits, List.takeWhile_append_of_pos all, List.dropWhile_append_of_pos all]

theorem lookup_mem {word : String} {kind : TokenKind} (h : reserved.lookup word = some kind) :
    (word, kind) ∈ reserved := by
  obtain ⟨before, after, found, _⟩ := List.lookup_eq_some_iff.1 h
  simp [found]

theorem word_lexical {cs lexeme : List Char} {span : Span} {token : Token}
    (fits : Pattern.word.match? cs = some lexeme)
    (made : Pattern.word.token? lexeme span = .ok (some token)) : token.Lexical := by
  unfold token? at made
  dsimp only at made
  split at made
  · rename_i kind found
    cases made
    exact .reserved (lookup_mem found)
  · rename_i free
    split at made
    · cases made
    · rename_i flawless
      cases made
      refine .identifier ⟨?_, ?_, free⟩
      all_goals unfold wordFlaw? at flawless
      · match cs with
        | [] => simp [match?] at fits
        | c :: rest =>
          simp only [match?, Option.ite_none_right_eq_some, Option.some.injEq] at fits
          obtain ⟨_, rfl⟩ := fits
          refine ⟨c, rest.takeWhile isWordChar, rfl, ?_, List.all_eq_true.1 List.all_takeWhile⟩
          split at flawless
          · cases flawless
          · rename_i lower
            simpa using lower
      · split at flawless
        · cases flawless
        · split at flawless
          · cases flawless
          · omega

theorem integer_lexical {negative : Bool} {cs lexeme : List Char} {span : Span} {token : Token}
    (fits : (Pattern.integer negative).match? cs = some lexeme)
    (made : (Pattern.integer negative).token? lexeme span = .ok (some token)) :
    token.Lexical := by
  cases negative with
  | true =>
    obtain ⟨rest, digits, found, rfl⟩ := negated?_parts (by simpa [match?] using fits)
    simp only [token?, unsignedPart, reduceIte, List.drop_one, List.tail_cons] at made
    split at made
    · rename_i short
      cases made
      exact .negative (run?_digits found) short
    · cases made
  | false =>
    simp only [token?, unsignedPart, Bool.false_eq_true, reduceIte] at made
    split at made
    · rename_i short
      cases made
      exact .integer (run?_digits (by simpa [match?, wholeMatch?] using fits)) short
    · cases made

theorem point_lexical {negative : Bool} {cs lexeme : List Char} {span : Span} {token : Token}
    (fits : (Pattern.point negative).match? cs = some lexeme)
    (made : (Pattern.point negative).token? lexeme span = .ok (some token)) : token.Lexical := by
  cases negative with
  | true =>
    obtain ⟨rest, taken, found, rfl⟩ := negated?_parts (by simpa [match?] using fits)
    obtain ⟨whole, fraction, rfl, digital, fractional⟩ := pointMatch?_parts found
    simp only [token?, unsignedPart, reduceIte, List.drop_one, List.tail_cons] at made
    split at made
    · rename_i short
      cases made
      exact .negativePoint digital fractional ((pointFits_iff digital).1 short)
    · cases made
  | false =>
    obtain ⟨whole, fraction, rfl, digital, fractional⟩ :=
      pointMatch?_parts (by simpa [match?] using fits)
    simp only [token?, unsignedPart, Bool.false_eq_true, reduceIte] at made
    split at made
    · rename_i short
      cases made
      exact .point digital fractional ((pointFits_iff digital).1 short)
    · cases made

theorem token?_lexical {p : Pattern} {cs lexeme : List Char} {span : Span} {token : Token}
    (member : p ∈ table) (fits : p.match? cs = some lexeme)
    (made : p.token? lexeme span = .ok (some token)) : token.Lexical := by
  cases p with
  | word => exact word_lexical fits made
  | point negative => exact point_lexical fits made
  | integer negative => exact integer_lexical fits made
  | blanks => cases made
  | comment => cases made
  | text => cases made; exact .text
  | quote => cases made
  | symbol spelling kind value =>
    obtain ⟨rfl, listed⟩ := symbol_listed member
    cases made
    exact .symbol listed

end Pattern

namespace Token

theorem front_ok {r : Reader} {token : Option Token} {n : Nat} (found : front r = .ok (token, n)) :
    ∃ p ∈ Pattern.table, ∃ lexeme, p.match? r.rest = some lexeme ∧ n = lexeme.length ∧
      p.token? lexeme ⟨r.position, r.position.advance lexeme⟩ = .ok token := by
  cases first : Pattern.first? r.rest with
  | none =>
    rw [front_none first] at found
    cases found
  | some taken =>
    obtain ⟨p, lexeme⟩ := taken
    obtain ⟨q, member, fits⟩ := List.exists_of_findSome?_eq_some first
    obtain ⟨taken, fits, same⟩ := Option.map_eq_some_iff.1 fits
    cases same
    rw [front_some first] at found
    cases made : p.token? lexeme ⟨r.position, r.position.advance lexeme⟩ with
    | error cause =>
      rw [made] at found
      cases found
    | ok token =>
      rw [made] at found
      cases found
      exact ⟨p, member, lexeme, fits, rfl, made⟩

theorem front_lexical {r : Reader} {token : Token} {n : Nat}
    (found : front r = .ok (some token, n)) : token.Lexical := by
  obtain ⟨p, member, lexeme, fits, -, made⟩ := front_ok found
  exact Pattern.token?_lexical member fits made

-- A list of lexical tokens with an end mark after them, and nowhere else.
def Ended (tokens : List Token) : Prop :=
  ∃ body stop, tokens = body ++ [Token.eof stop] ∧ ∀ token ∈ body, token.Lexical

theorem scan_ended {r : Reader} {tokens : List Token} (ran : scan r = .ok tokens) :
    Ended tokens := by
  fun_induction scan r generalizing tokens with
  | case1 r empty =>
    cases ran
    exact ⟨[], r.position, rfl, by simp⟩
  | case2 => cases ran
  | case3 => cases ran
  | case4 r more token n found rest scanned ih =>
    cases ran
    obtain ⟨body, stop, rfl, lexical⟩ := ih scanned
    refine ⟨token.toList ++ body, stop, by simp, ?_⟩
    intro t member
    rcases List.mem_append.1 member with here | later
    · cases token with
      | none => cases here
      | some token =>
        cases List.mem_singleton.1 here
        exact front_lexical found
    · exact lexical t later

theorem ofSource_ended {source : String} {tokens : List Token}
    (ran : ofSource source = .ok tokens) : Ended tokens := scan_ended ran

end Token

end Scriptlet
