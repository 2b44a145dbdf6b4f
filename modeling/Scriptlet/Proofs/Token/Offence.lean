import Mathlib.Data.List.Basic
import Scriptlet.Proofs.Token.Lexemes

/-!
Where a scan stops. A text that cannot be scanned has a part in front that can, and right behind
that part a lexeme of which no token can be made. The fault is at the place where this lexeme
starts, and shows it.
-/

namespace Scriptlet

namespace Pattern

variable {p q : Pattern} {cs lexeme rest : List Char} {cause : FaultCause} {span : Span}

-- What comes after the text is escaped: the backslashes at its end do not pair up.
def Escapes (text : List Char) : Prop := (text.reverse.takeWhile (· == '\\')).length % 2 = 1

-- The text starts with a lexeme that no token can be made of.
inductive Offends : List Char → FaultCause → Prop where
  | capital {word rest : List Char} (maximal : Takes .word word rest)
      (free : ∀ row ∈ reserved, row.1.toList ≠ word)
      (upper : ∀ c ∈ word.head?, ¬ ('a' ≤ c ∧ c ≤ 'z')) :
      Offends (word ++ rest) (.invalidIdentifier (String.ofList word)
        "identifiers must start with a lowercase letter")
  | long {word rest : List Char} (maximal : Takes .word word rest)
      (free : ∀ row ∈ reserved, row.1.toList ≠ word)
      (lower : ∀ c ∈ word.head?, 'a' ≤ c ∧ c ≤ 'z') (many : 20 < word.length) :
      Offends (word ++ rest) (.invalidIdentifier (String.ofList word)
        "identifiers may not exceed 20 characters")
  -- Zeros in front do not count, and the digits are not those before a point and more digits.
  | integer {negative : Bool} {digits rest : List Char}
      (maximal : Takes (.integer negative) (sign negative ++ digits) rest)
      (whole : ∀ c behind, rest = '.' :: c :: behind → Integer.isDigit c = false)
      (many : 9 < (digits.dropWhile (· == '0')).length) :
      Offends (sign negative ++ digits ++ rest)
        (.invalidInteger (String.ofList (sign negative ++ digits)))
  | point {negative : Bool} {whole fraction rest : List Char}
      (maximal : Takes (.point negative) (sign negative ++ (whole ++ '.' :: fraction)) rest)
      (many : 9 < whole.length ∨ 9 < fraction.length) :
      Offends (sign negative ++ (whole ++ '.' :: fraction) ++ rest)
        (.invalidPoint (String.ofList (sign negative ++ (whole ++ '.' :: fraction))))
  -- All quotes on the rest of the line are escaped.
  | text {rest : List Char}
      (unclosed : ∀ body behind, rest = body ++ '"' :: behind → '\n' ∉ body → Escapes body) :
      Offends ('"' :: rest) .unterminatedText
  -- The character starts no word, number, white space, comment, text or symbol.
  | character {c : Char} {rest : List Char} (word : isWordStart c = false)
      (digit : Integer.isDigit c = false) (shown : Text.isBlank c = false)
      (marks : c ≠ '#' ∧ c ≠ '"') (symbol : ∀ row ∈ symbols, ¬ row.2 <+: c :: rest) :
      Offends (c :: rest) (.unrecognisedToken (String.ofList [c]))

theorem first?_some (found : first? cs = some (p, lexeme)) :
    ∃ before after, table = before ++ p :: after ∧ (∀ q ∈ before, q.match? cs = none) ∧
      p.match? cs = some lexeme := by
  obtain ⟨before, q, after, split, fits, others⟩ := List.findSome?_eq_some_iff.1 found
  obtain ⟨taken, fits, same⟩ := Option.map_eq_some_iff.1 fits
  cases same
  exact ⟨before, after, split, fun q early => Option.map_eq_none_iff.1 (others q early), fits⟩

theorem first?_early (found : first? cs = some (p, lexeme))
    (early : q ∈ table.take (table.idxOf p)) : q.match? cs = none := by
  obtain ⟨before, after, split, others, fits⟩ := first?_some found
  have once : p ∉ before := by
    intro listed
    rw [others p listed] at fits
    cases fits
  have place : table.idxOf p = before.length := by
    rw [split, List.idxOf_append_of_notMem once, List.idxOf_cons_self, Nat.add_zero]
  rw [place, split, List.take_left] at early
  exact others q early

theorem first?_cut {xs ys : List Char} (found : first? (lexeme ++ (xs ++ ys)) = some (p, lexeme)) :
    first? (lexeme ++ xs) = some (p, lexeme) := by
  obtain ⟨before, after, split, others, fits⟩ := first?_some found
  refine first?_of split (fun q early => ?_) (match?_cut fits)
  have none := others q early
  rw [← List.append_assoc] at none
  exact match?_shorter none

-- A pair or a plain character at the front does not change whether the backslashes at the end
-- pair up.
theorem Escapes.pair {c : Char} {body : List Char} (escapes : Escapes body) :
    Escapes ('\\' :: c :: body) := by
  unfold Escapes at *
  rw [List.reverse_cons, List.reverse_cons, List.append_assoc, List.takeWhile_append]
  split
  · rename_i whole
    rw [List.length_append, ← whole]
    by_cases same : c = '\\'
    · simp [same, escapes]
    · simp [same, escapes]
  · exact escapes

theorem Escapes.plain {c : Char} {body : List Char} (other : c ≠ '\\') (escapes : Escapes body) :
    Escapes (c :: body) := by
  unfold Escapes at *
  rw [List.reverse_cons, List.takeWhile_append]
  split
  · rename_i whole
    rw [List.length_append, ← whole]
    simp [other, escapes]
  · exact escapes

theorem textRest?_none (none : textRest? cs = none) :
    ∀ body behind, cs = body ++ '"' :: behind → '\n' ∉ body → Escapes body := by
  fun_induction textRest? cs with
  | case1 =>
    intro body behind split
    simp at split
  | case2 => cases none
  | case3 cs =>
    intro body behind split within
    rcases body with _ | ⟨first, _ | ⟨second, body⟩⟩
    · simp at split
    · simp at split
    · simp_all
  | case4 c cs other ih =>
    intro body behind split within
    have deeper := ih (Option.map_eq_none_iff.1 none)
    rcases body with _ | ⟨first, _ | ⟨second, body⟩⟩
    · simp at split
    · obtain ⟨rfl, -⟩ := List.cons.inj split
      rfl
    · simp only [List.cons_append, List.cons.injEq] at split
      obtain ⟨rfl, rfl, split⟩ := split
      simp only [List.mem_cons, not_or] at within
      exact (deeper body behind split within.2.2).pair
  | case5 c cs quote pair stops =>
    intro body behind split within
    rcases body with _ | ⟨first, body⟩
    · exact absurd (List.cons.inj split).1 quote
    · simp only [List.cons_append, List.cons.injEq] at split
      obtain ⟨rfl, split⟩ := split
      rcases stops with rfl | rfl
      · simp at within
      · cases body <;> exact absurd split (pair _ _ rfl)
  | case6 c cs quote pair other ih =>
    intro body behind split within
    have deeper := ih (Option.map_eq_none_iff.1 none)
    rcases body with _ | ⟨first, body⟩
    · exact absurd (List.cons.inj split).1 quote
    · simp only [List.cons_append, List.cons.injEq] at split
      obtain ⟨rfl, split⟩ := split
      simp only [List.mem_cons, not_or] at within
      exact (deeper body behind split within.2).plain (not_or.1 other).2

theorem offends_of_none (filled : cs ≠ []) (none : first? cs = none) :
    Offends cs (.unrecognisedToken (String.ofList (cs.take 1))) := by
  obtain ⟨c, rest, rfl⟩ := List.exists_cons_of_ne_nil filled
  have each : ∀ p ∈ table, p.match? (c :: rest) = Option.none := fun p listed =>
    Option.map_eq_none_iff.1 (List.findSome?_eq_none_iff.1 none p listed)
  have word : Pattern.word.match? (c :: rest) = Option.none := each _ (by decide)
  have digit : (Pattern.integer false).match? (c :: rest) = Option.none := each _ (by decide)
  have blank : Pattern.blanks.match? (c :: rest) = Option.none := each _ (by decide)
  have comment : Pattern.comment.match? (c :: rest) = Option.none := each _ (by decide)
  have quote : Pattern.quote.match? (c :: rest) = Option.none := each _ (by decide)
  refine .character (by simpa [match?] using word) ?_ ?_ ⟨?_, ?_⟩ fun row listed starts => ?_
  · cases first : Integer.isDigit c with
    | false => rfl
    | true => simp [match?, wholeMatch?, run?, first] at digit
  · cases first : Text.isBlank c with
    | false => rfl
    | true => simp [match?, run?, first] at blank
  · rintro rfl
    cases comment
  · rintro rfl
    cases quote
  · obtain ⟨source, given, rfl⟩ := List.mem_map.1 listed
    have member : Pattern.symbol source.spelling source.kind source.value ∈ table :=
      List.mem_append_right _ (List.mem_map.2 ⟨source, given, rfl⟩)
    have symbol := each _ member
    rw [(symbol_listed member).1] at starts
    simp [match?, List.isPrefixOf_iff_prefix.2 starts] at symbol

theorem word_offends (takes : Takes .word lexeme rest)
    (refused : Pattern.word.token? lexeme span = .error cause) :
    Offends (lexeme ++ rest) cause := by
  unfold token? at refused
  dsimp only at refused
  split at refused
  · cases refused
  · rename_i unlisted
    have free : ∀ row ∈ reserved, row.1.toList ≠ lexeme := by
      intro row listed same
      have other := List.lookup_eq_none_iff.1 unlisted row listed
      rw [← same, String.ofList_toList] at other
      simp at other
    split at refused
    · rename_i reason flawed
      cases refused
      unfold wordFlaw? at flawed
      split at flawed
      · rename_i upper
        cases flawed
        refine .capital takes free ?_
        rintro c first ⟨above, below⟩
        rw [Option.mem_def.1 first] at upper
        simp [above, below] at upper
      · rename_i lower
        split at flawed
        · rename_i many
          cases flawed
          refine .long takes free (fun c first => ?_) many
          rw [Option.mem_def.1 first] at lower
          simpa using lower
        · cases flawed
    · cases refused

theorem unsignedPart_sign (negative : Bool) (digits : List Char) :
    unsignedPart negative (sign negative ++ digits) = digits := by
  cases negative <;> rfl

-- A point literal would have been found before an integer.
theorem integer_offends {negative : Bool} (found : first? cs = some (.integer negative, lexeme))
    (refused : (Pattern.integer negative).token? lexeme span = .error cause) :
    Offends cs cause := by
  obtain ⟨before, after, -, -, fits⟩ := first?_some found
  obtain ⟨rest, rfl, takes⟩ := takes_of_match? fits
  have early : (Pattern.point negative).match? (lexeme ++ rest) = none := by
    cases negative with
    | true => exact first?_early found (by decide)
    | false => exact first?_early found (by decide)
  cases takes with
  | @integer negative digits rest digital ends =>
    simp only [token?, unsignedPart_sign] at refused
    split at refused
    · cases refused
    · rename_i many
      cases refused
      have many : 9 < (digits.dropWhile (· == '0')).length :=
        Nat.lt_of_not_le fun few => many (decide_eq_true few)
      refine .integer (.integer digital ends) ?_ many
      rintro c behind rfl
      cases digit : Integer.isDigit c with
      | false => rfl
      | true =>
        obtain ⟨fraction, left, rfl, all, ends⟩ := exists_run Integer.isDigit behind
        have fractional : Integer.AreDigits (c :: fraction) :=
          ⟨List.cons_ne_nil _ _, List.forall_mem_cons.2 ⟨digit, all⟩⟩
        have point := (@Takes.point negative _ _ _ digital fractional ends).match?_eq
        have same : sign negative ++ (digits ++ '.' :: c :: fraction) ++ left =
            sign negative ++ digits ++ '.' :: c :: (fraction ++ left) := by simp
        rw [same, early] at point
        cases point

theorem point_offends {negative : Bool} (takes : Takes (.point negative) lexeme rest)
    (refused : (Pattern.point negative).token? lexeme span = .error cause) :
    Offends (lexeme ++ rest) cause := by
  cases takes with
  | @point negative whole fraction rest digital fractional ends =>
    simp only [token?, unsignedPart_sign] at refused
    split at refused
    · cases refused
    · rename_i many
      cases refused
      rw [pointFits_iff digital] at many
      exact .point (.point digital fractional ends) (by simp [maxDigits] at many; omega)

-- A text literal would have been found before a lone quote.
theorem quote_offends (found : first? cs = some (.quote, lexeme)) :
    Offends cs .unterminatedText := by
  obtain ⟨before, after, -, -, fits⟩ := first?_some found
  obtain ⟨rest, rfl, takes⟩ := takes_of_match? fits
  have early : Pattern.text.match? (lexeme ++ rest) = none := first?_early found (by decide)
  cases takes
  exact .text (textRest?_none (Option.map_eq_none_iff.1 early))

theorem token?_offends (found : first? cs = some (p, lexeme))
    (refused : p.token? lexeme span = .error cause) : Offends cs cause := by
  obtain ⟨before, after, -, -, fits⟩ := first?_some found
  cases p with
  | word =>
    obtain ⟨rest, rfl, takes⟩ := takes_of_match? fits
    exact word_offends takes refused
  | point negative =>
    obtain ⟨rest, rfl, takes⟩ := takes_of_match? fits
    exact point_offends takes refused
  | integer negative => exact integer_offends found refused
  | quote =>
    cases refused
    exact quote_offends found
  | blanks | comment | text | symbol => cases refused

end Pattern

namespace Token

open Pattern

variable {r : Reader} {fault : Fault} {position : Position}

theorem front_offends (more : r.rest ≠ []) (failed : front r = .error fault) :
    fault.position = r.position ∧ Offends r.rest fault.cause := by
  cases found : first? r.rest with
  | none =>
    rw [front_none found] at failed
    cases failed
    exact ⟨rfl, offends_of_none more found⟩
  | some taken =>
    obtain ⟨p, lexeme⟩ := taken
    rw [front_some found] at failed
    cases refused : p.token? lexeme ⟨r.position, r.position.advance lexeme⟩ with
    | error cause =>
      rw [refused] at failed
      cases failed
      exact ⟨rfl, token?_offends found refused⟩
    | ok token =>
      rw [refused] at failed
      cases failed

theorem front_cut {token : Option Token} {n : Nat} {xs ys : List Char}
    (found : front ⟨xs ++ ys, position⟩ = .ok (token, n)) (within : n ≤ xs.length) :
    front ⟨xs, position⟩ = .ok (token, n) := by
  cases first : first? (xs ++ ys) with
  | none =>
    rw [front_none first] at found
    cases found
  | some taken =>
    obtain ⟨p, lexeme⟩ := taken
    rw [front_some first] at found
    have part : lexeme <+: xs ++ ys := (first?_takes first).2
    cases made : p.token? lexeme ⟨position, position.advance lexeme⟩ with
    | error cause =>
      rw [made] at found
      cases found
    | ok token =>
      rw [made] at found
      cases found
      obtain ⟨rest, rfl⟩ := List.prefix_of_prefix_length_le part (List.prefix_append ..) within
      rw [List.append_assoc] at first
      rw [front_some (first?_cut first), made]
      rfl

-- By the steps of the scan: each of them is also a step of the scan of the part in front.
theorem scan_offends (failed : scan r = .error fault) :
    ∃ before rest, r.rest = before ++ rest ∧ rest ≠ [] ∧
      fault.position = r.position.advance before ∧
      (∃ tokens, scan ⟨before, r.position⟩ = .ok tokens) ∧ Offends rest fault.cause := by
  fun_induction scan r generalizing fault with
  | case1 => cases failed
  | case2 r more stop refused =>
    cases failed
    obtain ⟨here, offends⟩ := front_offends more refused
    exact ⟨[], r.rest, rfl, more, here, ⟨_, scan_blank_text (List.forall_mem_nil _)⟩, offends⟩
  | case3 r more token n found stop failed' ih =>
    cases failed
    obtain ⟨before, rest, split, filled, place, ⟨tokens, scanned⟩, offends⟩ := ih failed'
    obtain ⟨positive, within⟩ := front_length found
    have length : (r.rest.take n).length = n := List.length_take_of_le within
    have whole : r.rest = r.rest.take n ++ before ++ rest := by
      rw [List.append_assoc, ← split]
      exact (List.take_append_drop n r.rest).symm
    have kept : front ⟨r.rest.take n ++ before, r.position⟩ = .ok (token, n) := by
      have found : front ⟨r.rest.take n ++ before ++ rest, r.position⟩ = .ok (token, n) := by
        rw [← whole]
        exact found
      exact front_cut found (by simp [length])
    have onward : Reader.advance ⟨r.rest.take n ++ before, r.position⟩ n =
        ⟨before, r.position.advance (r.rest.take n)⟩ := by
      rw [Reader.advance]
      dsimp only
      rw [List.drop_left' length, List.take_left' length]
    refine ⟨r.rest.take n ++ before, rest, whole, filled, ?_, ⟨token.toList ++ tokens, ?_⟩, offends⟩
    · rw [Position.advance_append]
      exact place
    · have more : r.rest.take n ++ before ≠ [] :=
        List.append_ne_nil_of_left_ne_nil (List.ne_nil_of_length_pos (by omega)) _
      have scanned : scan ⟨before, r.position.advance (r.rest.take n)⟩ = .ok tokens := scanned
      rw [scan_step more, kept, Except.bind, onward, scanned]
      rfl
  | case4 => cases failed

theorem ofSource_offends {source : String} (failed : ofSource source = .error fault) :
    ∃ before rest, source.toList = before ++ rest ∧ rest ≠ [] ∧
      fault.position = .after before ∧
      (∃ tokens, ofSource (String.ofList before) = .ok tokens) ∧ Offends rest fault.cause := by
  obtain ⟨before, rest, split, filled, place, scanned, offends⟩ := scan_offends failed
  refine ⟨before, rest, split, filled, ?_, ?_, offends⟩
  · rw [← Position.advance_first]
    exact place
  · rw [ofSource, Reader.ofString, String.toList_ofList]
    exact scanned

-- A comment with a quote in it, and a numeral that is too long without its zeros.
def longSource : String := "show 0.5; # \"\nx = ~0001234567890.y;"

theorem longSource_offends :
    ofSource longSource = .error ⟨.invalidInteger "~0001234567890", ⟨2, 5⟩⟩ ∧
    ∃ before rest, longSource.toList = before ++ rest ∧ rest ≠ [] ∧
      Position.mk 2 5 = .after before ∧
      (∃ tokens, ofSource (String.ofList before) = .ok tokens) ∧
      Offends rest (.invalidInteger "~0001234567890") := by
  have failed : ofSource longSource = .error ⟨.invalidInteger "~0001234567890", ⟨2, 5⟩⟩ := by
    decide +kernel
  exact ⟨failed, ofSource_offends failed⟩

end Token

end Scriptlet
