import Mathlib.Data.List.TakeWhile
import Scriptlet.Proofs.Token.Lines

/-!
What the patterns take, said without reading. A lexeme is spelled as its pattern asks, and what
follows does not go on with it. So a text that is cut off behind a lexeme keeps it, and a pattern
that fits a text fits every longer one.
-/

namespace Scriptlet

namespace Pattern

variable {p : Pattern} {cs xs ys lexeme rest run : List Char}

-- The text does not go on with a character of the class.
def Ends (p : Char → Bool) (rest : List Char) : Prop := ∀ c ∈ rest.head?, p c = false

-- What stands in front of the digits.
def sign (negative : Bool) : List Char := if negative then ['~'] else []

-- The inside of a text literal. A backslash takes any character with it but a line feed.
inductive Inner : List Char → Prop where
  | nil : Inner []
  | plain {c : Char} {cs : List Char} (free : c ≠ '"' ∧ c ≠ '\\' ∧ c ≠ '\n') (others : Inner cs) :
      Inner (c :: cs)
  | escape {c : Char} {cs : List Char} (other : c ≠ '\n') (others : Inner cs) :
      Inner ('\\' :: c :: cs)

-- The pattern takes the lexeme when `rest` comes after it.
inductive Takes : Pattern → List Char → List Char → Prop where
  | word {c : Char} {cs rest : List Char} (starts : isWordStart c = true)
      (all : ∀ d ∈ cs, isWordChar d = true) (ends : Ends isWordChar rest) :
      Takes .word (c :: cs) rest
  | point {negative : Bool} {whole fraction rest : List Char} (digital : Integer.AreDigits whole)
      (fractional : Integer.AreDigits fraction) (ends : Ends Integer.isDigit rest) :
      Takes (.point negative) (sign negative ++ (whole ++ '.' :: fraction)) rest
  | integer {negative : Bool} {digits rest : List Char} (digital : Integer.AreDigits digits)
      (ends : Ends Integer.isDigit rest) : Takes (.integer negative) (sign negative ++ digits) rest
  | blanks {run rest : List Char} (filled : run ≠ []) (all : ∀ c ∈ run, Text.isBlank c = true)
      (ends : Ends Text.isBlank rest) : Takes .blanks run rest
  | comment {line rest : List Char} (all : ∀ c ∈ line, (c != '\n') = true)
      (ends : Ends (· != '\n') rest) : Takes .comment ('#' :: line) rest
  | text {body rest : List Char} (inner : Inner body) : Takes .text ('"' :: body ++ ['"']) rest
  | quote {rest : List Char} : Takes .quote ['"'] rest
  | symbol {kind : TokenKind} {spelling value rest : List Char} :
      Takes (.symbol spelling kind value) spelling rest

theorem Ends.cut {q : Char → Bool} (ends : Ends q (xs ++ ys)) : Ends q xs := by
  cases xs with
  | nil => intro c first; cases first
  | cons x xs => exact ends

theorem exists_run (q : Char → Bool) (cs : List Char) :
    ∃ run rest, cs = run ++ rest ∧ (∀ c ∈ run, q c = true) ∧ Ends q rest := by
  refine ⟨cs.takeWhile q, cs.dropWhile q, List.takeWhile_append_dropWhile.symm, ?_, ?_⟩
  · exact List.all_eq_true.1 List.all_takeWhile
  · intro c first
    have stops := List.head?_dropWhile_not q cs
    rw [Option.mem_def.1 first] at stops
    simpa using stops

theorem takeWhile_run {q : Char → Bool} (all : ∀ c ∈ run, q c = true) (ends : Ends q rest) :
    (run ++ rest).takeWhile q = run := by
  rw [takeWhile_stop ends]
  exact List.takeWhile_eq_self_iff.2 all

theorem run?_eq {q : Char → Bool} (filled : run ≠ []) (all : ∀ c ∈ run, q c = true)
    (ends : Ends q rest) : run? q (run ++ rest) = some run := by
  unfold run?
  rw [takeWhile_run all ends]
  split
  · exact absurd rfl filled
  · rfl

theorem run?_some {q : Char → Bool} (found : run? q cs = some run) :
    run ≠ [] ∧ (∀ c ∈ run, q c = true) ∧ ∃ rest, cs = run ++ rest ∧ Ends q rest := by
  obtain ⟨taken, rest, rfl, all, ends⟩ := exists_run q cs
  have filled : taken ≠ [] := by
    rintro rfl
    have none : run? q ([] ++ rest) = none := by
      unfold run?
      rw [takeWhile_run all ends]
    rw [none] at found
    cases found
  cases (run?_eq filled all ends).symm.trans found
  exact ⟨filled, all, rest, rfl, ends⟩

theorem point_ends (fraction : List Char) : Ends Integer.isDigit ('.' :: fraction) := by
  intro c first
  cases Option.some.inj first
  decide

theorem pointMatch?_eq {whole fraction : List Char} (digital : Integer.AreDigits whole)
    (fractional : Integer.AreDigits fraction) (ends : Ends Integer.isDigit rest) :
    pointMatch? (whole ++ '.' :: fraction ++ rest) = some (whole ++ '.' :: fraction) := by
  have first : run? Integer.isDigit (whole ++ '.' :: (fraction ++ rest)) = some whole :=
    run?_eq digital.1 digital.2 (point_ends _)
  have second : run? Integer.isDigit (fraction ++ rest) = some fraction :=
    run?_eq fractional.1 fractional.2 ends
  simp [pointMatch?, first, second]

theorem pointMatch?_some (found : pointMatch? cs = some lexeme) :
    ∃ whole fraction rest, cs = whole ++ '.' :: fraction ++ rest ∧
      lexeme = whole ++ '.' :: fraction ∧ Integer.AreDigits whole ∧ Integer.AreDigits fraction ∧
      Ends Integer.isDigit rest := by
  unfold pointMatch? at found
  obtain ⟨whole, first, found⟩ := Option.bind_eq_some_iff.1 found
  obtain ⟨filled, digital, behind, rfl, -⟩ := run?_some first
  rw [List.drop_left] at found
  split at found
  · obtain ⟨fraction, second, rfl⟩ := Option.map_eq_some_iff.1 found
    obtain ⟨filled', fractional, rest, rfl, ends⟩ := run?_some second
    exact ⟨whole, fraction, rest, by simp, rfl, ⟨filled, digital⟩, ⟨filled', fractional⟩, ends⟩
  · cases found

theorem negated?_some {inner : List Char → Option (List Char)}
    (found : negated? inner cs = some lexeme) :
    ∃ behind taken, cs = '~' :: behind ∧ inner behind = some taken ∧ lexeme = '~' :: taken := by
  unfold negated? at found
  split at found
  · obtain ⟨taken, inside, rfl⟩ := Option.map_eq_some_iff.1 found
    exact ⟨_, taken, rfl, inside, rfl⟩
  · cases found

theorem Inner.textRest?_eq {body : List Char} (inner : Inner body) (rest : List Char) :
    textRest? (body ++ '"' :: rest) = some (body ++ ['"']) := by
  induction inner with
  | nil => simp [textRest?]
  | plain free others ih => simp [textRest?, free, ih]
  | escape other others ih => simp [textRest?, other, ih]

theorem textRest?_some (found : textRest? cs = some lexeme) :
    ∃ body rest, cs = body ++ '"' :: rest ∧ lexeme = body ++ ['"'] ∧ Inner body := by
  fun_induction textRest? cs generalizing lexeme with
  | case1 => cases found
  | case2 rest =>
    cases found
    exact ⟨[], rest, rfl, rfl, .nil⟩
  | case3 => cases found
  | case4 c cs other ih =>
    obtain ⟨taken, inside, rfl⟩ := Option.map_eq_some_iff.1 found
    obtain ⟨body, rest, rfl, rfl, inner⟩ := ih inside
    exact ⟨'\\' :: c :: body, rest, rfl, rfl, .escape other inner⟩
  | case5 => cases found
  | case6 c cs quote _ other ih =>
    obtain ⟨taken, inside, rfl⟩ := Option.map_eq_some_iff.1 found
    obtain ⟨body, rest, rfl, rfl, inner⟩ := ih inside
    obtain ⟨line, backslash⟩ := not_or.1 other
    exact ⟨c :: body, rest, rfl, rfl, .plain ⟨quote, backslash, line⟩ inner⟩

theorem Takes.match?_eq (takes : p.Takes lexeme rest) :
    p.match? (lexeme ++ rest) = some lexeme := by
  cases takes with
  | word starts all ends => simp [match?, starts, takeWhile_run all ends]
  | @point negative whole fraction rest digital fractional ends =>
    have taken := pointMatch?_eq digital fractional ends
    cases negative with
    | true => simpa [match?, sign, negated?] using taken
    | false => exact taken
  | @integer negative digits rest digital ends =>
    have taken : wholeMatch? (digits ++ rest) = some digits := run?_eq digital.1 digital.2 ends
    cases negative with
    | true => simp [match?, sign, negated?, taken]
    | false => exact taken
  | blanks filled all ends => exact run?_eq filled all ends
  | comment all ends =>
    rw [List.cons_append, match?, takeWhile_run all ends]
  | @text body rest inner =>
    have taken := inner.textRest?_eq rest
    simp [match?, taken]
  | quote => rfl
  | symbol => simp [match?]

theorem takes_of_match? (fits : p.match? cs = some lexeme) :
    ∃ rest, cs = lexeme ++ rest ∧ p.Takes lexeme rest := by
  cases p with
  | word =>
    cases cs with
    | nil => cases fits
    | cons c cs =>
      simp only [match?, Option.ite_none_right_eq_some, Option.some.injEq] at fits
      obtain ⟨starts, rfl⟩ := fits
      obtain ⟨run, rest, rfl, all, ends⟩ := exists_run isWordChar cs
      rw [takeWhile_run all ends]
      exact ⟨rest, rfl, .word starts all ends⟩
  | point negative =>
    cases negative with
    | true =>
      have signed : negated? pointMatch? cs = some lexeme := fits
      obtain ⟨behind, taken, rfl, found, rfl⟩ := negated?_some signed
      obtain ⟨whole, fraction, rest, rfl, rfl, digital, fractional, ends⟩ := pointMatch?_some found
      exact ⟨rest, rfl, .point digital fractional ends⟩
    | false =>
      have found : pointMatch? cs = some lexeme := fits
      obtain ⟨whole, fraction, rest, rfl, rfl, digital, fractional, ends⟩ := pointMatch?_some found
      exact ⟨rest, rfl, .point digital fractional ends⟩
  | integer negative =>
    cases negative with
    | true =>
      have signed : negated? wholeMatch? cs = some lexeme := fits
      obtain ⟨behind, taken, rfl, found, rfl⟩ := negated?_some signed
      obtain ⟨filled, digital, rest, rfl, ends⟩ := run?_some found
      exact ⟨rest, rfl, .integer ⟨filled, digital⟩ ends⟩
    | false =>
      have found : run? Integer.isDigit cs = some lexeme := fits
      obtain ⟨filled, digital, rest, rfl, ends⟩ := run?_some found
      exact ⟨rest, rfl, .integer ⟨filled, digital⟩ ends⟩
  | blanks =>
    have found : run? Text.isBlank cs = some lexeme := fits
    obtain ⟨filled, all, rest, rfl, ends⟩ := run?_some found
    exact ⟨rest, rfl, .blanks filled all ends⟩
  | comment =>
    unfold match? at fits
    split at fits <;> try contradiction
    rename_i cs _
    cases fits
    obtain ⟨line, rest, rfl, all, ends⟩ := exists_run (· != '\n') cs
    rw [takeWhile_run all ends]
    exact ⟨rest, rfl, .comment all ends⟩
  | text =>
    unfold match? at fits
    split at fits <;> try contradiction
    obtain ⟨taken, found, rfl⟩ := Option.map_eq_some_iff.1 fits
    obtain ⟨body, rest, rfl, rfl, inner⟩ := textRest?_some found
    exact ⟨rest, by simp, .text inner⟩
  | quote =>
    unfold match? at fits
    split at fits <;> try contradiction
    cases fits
    exact ⟨_, rfl, .quote⟩
  | symbol spelling kind value =>
    simp only [match?, Option.ite_none_right_eq_some, Option.some.injEq] at fits
    obtain ⟨starts, rfl⟩ := fits
    obtain ⟨rest, rfl⟩ := List.isPrefixOf_iff_prefix.1 starts
    exact ⟨rest, rfl, .symbol⟩

theorem Takes.cut (takes : p.Takes lexeme (xs ++ ys)) : p.Takes lexeme xs := by
  cases takes with
  | word starts all ends => exact .word starts all ends.cut
  | point digital fractional ends => exact .point digital fractional ends.cut
  | integer digital ends => exact .integer digital ends.cut
  | blanks filled all ends => exact .blanks filled all ends.cut
  | comment all ends => exact .comment all ends.cut
  | text inner => exact .text inner
  | quote => exact .quote
  | symbol => exact .symbol

theorem Takes.lengthen (takes : p.Takes lexeme rest) (ys : List Char) :
    ∃ more left, rest ++ ys = more ++ left ∧ p.Takes (lexeme ++ more) left := by
  have onward (q : Char → Bool) {run : List Char} (all : ∀ c ∈ run, q c = true) :
      ∃ more left, rest ++ ys = more ++ left ∧ (∀ c ∈ run ++ more, q c = true) ∧ Ends q left := by
    obtain ⟨more, left, split, others, ends⟩ := exists_run q (rest ++ ys)
    exact ⟨more, left, split, List.forall_mem_append.2 ⟨all, others⟩, ends⟩
  cases takes with
  | word starts all ends =>
    obtain ⟨more, left, split, all, ends⟩ := onward isWordChar all
    exact ⟨more, left, split, .word starts all ends⟩
  | @point negative whole fraction rest digital fractional ends =>
    obtain ⟨more, left, split, all, ends⟩ := onward Integer.isDigit fractional.2
    have longer : Integer.AreDigits (fraction ++ more) :=
      ⟨List.append_ne_nil_of_left_ne_nil fractional.1 _, all⟩
    exact ⟨more, left, split, by simpa using @Takes.point negative _ _ _ digital longer ends⟩
  | @integer negative digits rest digital ends =>
    obtain ⟨more, left, split, all, ends⟩ := onward Integer.isDigit digital.2
    have longer : Integer.AreDigits (digits ++ more) :=
      ⟨List.append_ne_nil_of_left_ne_nil digital.1 _, all⟩
    exact ⟨more, left, split, by simpa using @Takes.integer negative _ _ longer ends⟩
  | blanks filled all ends =>
    obtain ⟨more, left, split, all, ends⟩ := onward Text.isBlank all
    exact ⟨more, left, split, .blanks (List.append_ne_nil_of_left_ne_nil filled _) all ends⟩
  | comment all ends =>
    obtain ⟨more, left, split, all, ends⟩ := onward (· != '\n') all
    exact ⟨more, left, split, .comment all ends⟩
  | text inner => exact ⟨[], rest ++ ys, rfl, by simpa using Takes.text inner⟩
  | quote => exact ⟨[], rest ++ ys, rfl, .quote⟩
  | symbol => exact ⟨[], rest ++ ys, rfl, by simpa using Takes.symbol⟩

theorem match?_cut (fits : p.match? (lexeme ++ (xs ++ ys)) = some lexeme) :
    p.match? (lexeme ++ xs) = some lexeme := by
  obtain ⟨rest, split, takes⟩ := takes_of_match? fits
  cases List.append_cancel_left split
  exact takes.cut.match?_eq

theorem match?_shorter (none : p.match? (xs ++ ys) = none) : p.match? xs = Option.none := by
  cases fits : p.match? xs with
  | none => rfl
  | some lexeme =>
    obtain ⟨rest, rfl, takes⟩ := takes_of_match? fits
    obtain ⟨more, left, split, longer⟩ := takes.lengthen ys
    have found := longer.match?_eq
    rw [List.append_assoc, ← split, ← List.append_assoc, none] at found
    cases found

end Pattern

end Scriptlet
