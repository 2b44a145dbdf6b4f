import Scriptlet.Proofs.Token.Lexemes
import Scriptlet.Source.Excerpt

/-!
Where the caret of a report stands. The scanner counts lines and columns, the excerpt cuts the
source into lines again and takes white space off both ends of one of them, and the caret is put
at a distance. When the position is that of a token, the caret is under the first character of
its lexeme.
-/

namespace Scriptlet

namespace Text

variable {mark : Char} {xs ys line above below : List Char}

theorem split_append : split mark (xs ++ mark :: ys) = split mark xs ++ split mark ys := by
  induction xs with
  | nil => simp [split]
  | cons c xs ih =>
    rw [List.cons_append, split, split, ih]
    split
    · rfl
    · cases pieces : split mark xs with
      | nil => exact absurd pieces (split_ne_nil mark xs)
      | cons piece others => rfl

theorem split_line (within : mark ∉ line) : split mark line = [line] := by
  induction line with
  | nil => rfl
  | cons c line ih =>
    rw [List.mem_cons, not_or] at within
    rw [split, if_neg (Ne.symm within.1), ih within.2]

theorem split_cons (within : mark ∉ line) (ys : List Char) :
    split mark (line ++ mark :: ys) = line :: split mark ys := by
  rw [split_append, split_line within, List.singleton_append]

theorem length_split (xs : List Char) : (split mark xs).length = xs.count mark + 1 := by
  induction xs with
  | nil => rfl
  | cons c xs ih =>
    rw [split]
    split
    · rename_i same
      rw [List.length_cons, ih, same, List.count_cons_self]
    · rename_i other
      rw [List.count_cons_of_ne other, ← ih]
      cases pieces : split mark xs with
      | nil => exact absurd pieces (split_ne_nil mark xs)
      | cons piece others => rfl

theorem split_getElem? (upper : ∀ c ∈ above.getLast?, c = mark) (within : mark ∉ line)
    (lower : ∀ c ∈ below.head?, c = mark) :
    (split mark (above ++ (line ++ below)))[above.count mark]? = some line := by
  have here : (split mark (line ++ below))[0]? = some line := by
    cases below with
    | nil => rw [List.append_nil, split_line within]; rfl
    | cons c below =>
      cases lower c rfl
      rw [split_cons within]
      rfl
  rcases List.eq_nil_or_concat above with rfl | ⟨before, c, rfl⟩
  · exact here
  · cases upper c (by simp)
    have first : (before ++ [mark]).count mark = (split mark before).length := by
      rw [length_split, List.count_append, List.count_singleton_self]
    rw [List.concat_eq_append, first, List.append_assoc, List.singleton_append, split_append,
      List.getElem?_append_right (Nat.le_refl _), Nat.sub_self, here]

theorem trimEnd_append {body trail : List Char} (blank : ∀ c ∈ trail, isBlank c = true)
    (solid : ∀ c ∈ body.getLast?, isBlank c = false) : trimEnd (body ++ trail) = body := by
  have turned : (body ++ trail).reverse = trail.reverse ++ body.reverse := by simp
  have none : body.reverse.dropWhile isBlank = body.reverse := by
    cases last : body.reverse with
    | nil => rfl
    | cons c rest =>
      have first : c ∈ body.getLast? := by
        rw [← List.head?_reverse, last]
        rfl
      exact List.dropWhile_cons_of_neg (by simp [solid c first])
  rw [trimEnd, turned, List.dropWhile_append_of_pos (by simpa using blank), none,
    List.reverse_reverse]

end Text

theorem Pattern.exists_run_last (q : Char → Bool) (cs : List Char) :
    ∃ rest run, cs = rest ++ run ∧ (∀ c ∈ run, q c = true) ∧ ∀ c ∈ rest.getLast?, q c = false := by
  obtain ⟨run, rest, split, all, ends⟩ := exists_run q cs.reverse
  refine ⟨rest.reverse, run.reverse, ?_, by simpa using all, ?_⟩
  · rw [← List.reverse_append, ← split, List.reverse_reverse]
  · rw [List.getLast?_reverse]
    exact ends

theorem Pattern.shown_of_word {c : Char} (word : isWordChar c = true) : Text.isBlank c = false := by
  cases blank : Text.isBlank c with
  | false => rfl
  | true => exact absurd (blank_apart blank) (by simp [word])

theorem Pattern.shown_of_digits {digits : List Char} (digital : Integer.AreDigits digits) :
    ∀ c ∈ digits, Text.isBlank c = false := by
  intro c listed
  apply shown_of_word
  rw [isWordChar, digital.2 c listed, Bool.or_true]

namespace Token

variable {token : Token} {lexeme : List Char}

theorem Lexical.shown (lexical : token.Lexical) (other : token.kind ≠ .textLiteral) :
    ∀ c ∈ token.value.toList, Text.isBlank c = false := by
  cases lexical with
  | @symbol kind spelling span listed =>
    have all : (Pattern.symbols.all fun row => row.2.all fun c => !Text.isBlank c) = true := by
      decide
    rw [String.toList_ofList]
    simpa using List.all_eq_true.1 all _ listed
  | @reserved kind word span listed =>
    have all : (Pattern.reserved.all fun row =>
        row.1.toList.all fun c => !Text.isBlank c) = true := by decide
    simpa using List.all_eq_true.1 all _ listed
  | @identifier word span named =>
    obtain ⟨c, cs, rfl, lower, all⟩ := named.starts
    have first : Pattern.isWordChar c = true := by
      simp [Pattern.isWordChar, Pattern.isWordStart, Pattern.isLetter, lower]
    have whole : ∀ d ∈ c :: cs, Pattern.isWordChar d = true := List.forall_mem_cons.2 ⟨first, all⟩
    rw [String.toList_ofList]
    exact fun d listed => Pattern.shown_of_word (whole d listed)
  | integer digital short =>
    rw [String.toList_ofList]
    exact Pattern.shown_of_digits digital
  | negative digital short =>
    rw [String.toList_ofList]
    exact List.forall_mem_cons.2 ⟨by decide, Pattern.shown_of_digits digital⟩
  | point digital fractional short =>
    rw [String.toList_ofList]
    exact List.forall_mem_append.2 ⟨Pattern.shown_of_digits digital,
      List.forall_mem_cons.2 ⟨by decide, Pattern.shown_of_digits fractional⟩⟩
  | negativePoint digital fractional short =>
    rw [String.toList_ofList]
    exact List.forall_mem_append.2
      ⟨List.forall_mem_cons.2 ⟨by decide, Pattern.shown_of_digits digital⟩,
        List.forall_mem_cons.2 ⟨by decide, Pattern.shown_of_digits fractional⟩⟩
  | text => exact absurd rfl other

theorem WrittenAs.shown (written : token.WrittenAs lexeme) (lexical : token.Lexical) :
    (∀ c ∈ lexeme.head?, Text.isBlank c = false) ∧
      ∀ c ∈ lexeme.getLast?, Text.isBlank c = false := by
  cases written with
  | @text body kind meant =>
    have quote : Text.isBlank '"' = false := by decide
    refine ⟨by simpa using quote, fun c last => ?_⟩
    rw [List.getLast?_concat] at last
    cases Option.some.inj last
    exact quote
  | plain kind same =>
    subst same
    have all := lexical.shown kind
    exact ⟨fun c first => all c (List.mem_of_mem_head? first),
      fun c last => all c (List.mem_of_mem_getLast? last)⟩

end Token

namespace Excerpt

-- The parts of a source around a lexeme: all that is above its line, the line in five parts, and
-- all that is below.
structure Setting where
  above : List Char
  indent : List Char
  left : List Char
  lexeme : List Char
  right : List Char
  trail : List Char
  below : List Char

namespace Setting

-- The line without the spaces and tabs at its start and the white space at its end.
def shown (s : Setting) : List Char := s.left ++ (s.lexeme ++ s.right)

def line (s : Setting) : List Char := s.indent ++ (s.shown ++ s.trail)

-- The lexeme is that of the token, and the parts are cut where they should be.
structure Of (s : Setting) (source : List Char) (token : Token) : Prop where
  split : source = s.above ++ (s.line ++ s.below)
  upper : ∀ c ∈ s.above.getLast?, c = '\n'
  oneLine : '\n' ∉ s.line
  lower : ∀ c ∈ s.below.head?, c = '\n'
  indented : ∀ c ∈ s.indent, c = ' ' ∨ c = '\t'
  starts : ∀ c ∈ s.shown.head?, c ≠ ' ' ∧ c ≠ '\t'
  ends : ∀ c ∈ s.shown.getLast?, Text.isBlank c = false
  trailing : ∀ c ∈ s.trail, Text.isBlank c = true
  filled : s.lexeme ≠ []
  written : token.WrittenAs s.lexeme
  start : token.span.start = .after (s.above ++ (s.indent ++ s.left))

variable {s : Setting} {source : List Char} {token : Token}

theorem isIndent_iff {c : Char} : isIndent c = true ↔ c = ' ' ∨ c = '\t' := by simp [isIndent]

theorem exists_of {before lexeme after : List Char} (filled : lexeme ≠ []) (within : '\n' ∉ lexeme)
    (written : token.WrittenAs lexeme) (lexical : token.Lexical)
    (start : token.span.start = .after before) :
    ∃ s : Setting, s.Of (before ++ (lexeme ++ after)) token := by
  obtain ⟨first, last⟩ := written.shown lexical
  obtain ⟨above, front, rfl, near, upper⟩ := Pattern.exists_run_last (· != '\n') before
  obtain ⟨behind, below, rfl, far, lower⟩ := Pattern.exists_run (· != '\n') after
  obtain ⟨indent, left, rfl, indented, starts⟩ := Pattern.exists_run isIndent front
  obtain ⟨right, trail, rfl, trailing, ends⟩ := Pattern.exists_run_last Text.isBlank behind
  have indents : ∀ c, Text.isBlank c = false → c ≠ ' ' ∧ c ≠ '\t' := by
    rintro c visible
    constructor <;> rintro rfl <;> exact absurd visible (by decide)
  refine ⟨⟨above, indent, left, lexeme, right, trail, below⟩,
    ⟨by simp [line, shown], by simpa using upper, ?_, by simpa [Pattern.Ends] using lower,
      fun c listed => isIndent_iff.1 (indented c listed), ?_, ?_, trailing, filled, written, start⟩⟩
  · have near : '\n' ∉ indent ++ left := Pattern.oneLine (p := (· != '\n')) (by decide) near
    have far : '\n' ∉ right ++ trail := Pattern.oneLine (p := (· != '\n')) (by decide) far
    simp only [line, shown, List.mem_append, not_or] at near far ⊢
    exact ⟨near.1, ⟨near.2, within, far.1⟩, far.2⟩
  · intro c head
    cases left with
    | nil =>
      obtain ⟨d, rest, rfl⟩ := List.exists_cons_of_ne_nil filled
      exact indents c (first c head)
    | cons d left =>
      have other := starts c head
      exact not_or.1 fun indent => by simp [isIndent_iff.2 indent] at other
  · intro c tail
    rw [shown, List.getLast?_append, List.getLast?_append] at tail
    cases visible : right.getLast? with
    | some d =>
      rw [visible] at tail
      cases Option.some.inj tail
      exact ends c visible
    | none =>
      rw [visible, Option.none_or, List.getLast?_eq_some_getLast filled] at tail
      cases Option.some.inj tail
      exact last _ (List.getLast?_eq_some_getLast filled)

namespace Of

variable (setting : s.Of source token)

include setting

theorem start_eq :
    token.span.start = ⟨s.above.count '\n' + 1, (s.indent ++ s.left).length + 1⟩ := by
  have front : '\n' ∉ s.indent ++ s.left := by
    have within := setting.oneLine
    simp only [line, shown, List.mem_append, not_or] at within ⊢
    exact ⟨within.1, within.2.1.1⟩
  have near : ∀ c ∈ (s.indent ++ s.left).reverse, (c != '\n') = true := by
    intro c listed
    exact bne_iff_ne.2 (ne_of_mem_of_not_mem (List.mem_reverse.1 listed) front)
  have upper : Pattern.Ends (· != '\n') s.above.reverse := by
    intro c first
    rw [List.head?_reverse] at first
    simp [setting.upper c first]
  rw [setting.start, Position.after, List.reverse_append, Pattern.takeWhile_run near upper,
    List.count_append, List.count_eq_zero_of_not_mem front, List.length_reverse]
  simp [Nat.add_comm]

-- At the end of the line at most one carriage return is lost, and only white space is.
theorem dropReturn_eq : ∃ trail, dropReturn s.line = s.indent ++ (s.shown ++ trail) ∧
    ∀ c ∈ trail, Text.isBlank c = true := by
  unfold dropReturn
  split
  · rename_i returned
    have more : s.trail ≠ [] := by
      intro nothing
      have filled : s.shown ≠ [] := by simp [shown, setting.filled]
      have last := List.getLast?_eq_some_getLast filled
      rw [line, nothing, List.append_nil, List.getLast?_append, last, Option.some_or] at returned
      have solid := setting.ends '\r' (last.trans returned)
      exact absurd solid (by decide)
    refine ⟨s.trail.dropLast, ?_, fun c listed => ?_⟩
    · rw [line, List.dropLast_append_of_ne_nil (by simp [more]),
        List.dropLast_append_of_ne_nil more]
    · exact setting.trailing c ((List.dropLast_prefix _).subset listed)
  · exact ⟨s.trail, rfl, setting.trailing⟩

theorem line?_eq {text : String} (same : text.toList = source) : ∃ line : String,
    line? text token.span.start.line = some line ∧
      line.toList.takeWhile isIndent = s.indent ∧
      Text.trimEnd (line.toList.dropWhile isIndent) = s.shown := by
  obtain ⟨trail, dropped, blank⟩ := setting.dropReturn_eq
  have indented : ∀ c ∈ s.indent, isIndent c = true :=
    fun c listed => isIndent_iff.2 (setting.indented c listed)
  have starts : Pattern.Ends isIndent (s.shown ++ trail) := by
    have filled : s.shown ≠ [] := by simp [shown, setting.filled]
    obtain ⟨d, rest, split⟩ := List.exists_cons_of_ne_nil filled
    intro c first
    rw [split] at first
    have other := setting.starts c (by rw [split]; exact first)
    simpa [isIndent] using other
  refine ⟨String.ofList (dropReturn s.line), ?_, ?_, ?_⟩
  · rw [setting.start_eq]
    simp only [line?, same, setting.split,
      Text.split_getElem? setting.upper setting.oneLine setting.lower, Option.map_some]
  · rw [String.toList_ofList, dropped, Pattern.takeWhile_run indented starts]
  · have kept : (s.shown ++ trail).dropWhile isIndent = s.shown ++ trail := by
      cases first : s.shown ++ trail with
      | nil => rfl
      | cons c rest =>
        rw [first] at starts
        exact List.dropWhile_cons_of_neg (by simp [starts c rfl])
    rw [String.toList_ofList, dropped, List.dropWhile_append_of_pos indented, kept,
      Text.trimEnd_append blank setting.ends]

end Of

theorem number_oneLine (n : Nat) : '\n' ∉ (toString n).toList := by
  rw [Nat.toString_eq_repr, Nat.toList_repr]
  intro inside
  exact absurd (Nat.isDigit_of_mem_toDigits (by decide) (by decide) inside) (by decide)

-- What stands left of the lines below the place, in the width of the line number.
def margin (number : List Char) : List Char := List.replicate (number.length + 1) ' ' ++ ['|']

theorem toList_body {line : String} {position : Position} {number indent shown : List Char}
    (numbered : (toString position.line).toList = number)
    (indented : line.toList.takeWhile isIndent = indent)
    (trimmed : Text.trimEnd (line.toList.dropWhile isIndent) = shown) :
    (body line position).toList =
      margin number ++ '\n' :: (number ++ (" | ".toList ++ shown) ++ '\n' ::
        (margin number ++ ' ' :: List.replicate (position.column - 1 - indent.length) '-' ++
          ['^'] ++ '\n' :: [])) := by
  unfold body
  dsimp only
  generalize toString position.line = n at numbered ⊢
  subst numbered indented trimmed
  simp [margin, spaces, caret, String.length_toList]

theorem toList_render {text file headline line : String} {position : Position}
    (found : line? text position.line = some line) :
    (render text file position headline).toList = "Error: ".toList ++ headline.toList ++ '\n' ::
      ("-> ".toList ++ file.toList ++ ':' :: position.text.toList ++ '\n' ::
        (body line position).toList) := by
  have whole : render text file position headline =
      "Error: " ++ headline ++ "\n-> " ++ file ++ ":" ++ position.text ++ "\n" ++
        body line position := by
    unfold render
    rw [found]
    rfl
  rw [whole]
  simp

theorem text_oneLine (position : Position) : '\n' ∉ position.text.toList := by
  have parts : position.text = toString position.line ++ ":" ++ toString position.column := rfl
  rw [parts, String.toList_append, String.toList_append, List.mem_append, List.mem_append]
  simp only [number_oneLine, or_false, false_or]
  decide

theorem Of.distance (setting : s.Of source token) :
    token.span.start.column - 1 - s.indent.length = s.left.length := by
  simp [setting.start_eq]

theorem Of.caret_within (setting : s.Of source token) (short : s.shown.length ≤ widthLimit) :
    (caret token.span.start.column s.indent.length).length ≤ widthLimit := by
  have lexeme : 0 < s.lexeme.length := List.length_pos_iff.2 setting.filled
  rw [caret, setting.distance, String.length_ofList, List.length_append, List.length_replicate,
    List.length_singleton]
  rw [shown, List.length_append, List.length_append] at short
  omega

theorem Of.render_lines (setting : s.Of source token) {text file headline : String}
    (same : text.toList = source) (inFile : '\n' ∉ file.toList)
    (inHeadline : '\n' ∉ headline.toList) :
    ∃ first second third marks : List Char,
      let number := (toString token.span.start.line).toList
      Text.split '\n' (render text file token.span.start headline).toList =
        [first, second, third, number ++ (" | ".toList ++ s.shown), marks ++ ['^'], []] ∧
      marks.length = (number ++ (" | ".toList ++ s.left)).length := by
  obtain ⟨line, found, indented, trimmed⟩ := setting.line?_eq same
  have written := @toList_body line token.span.start _ _ _ rfl indented trimmed
  have digits := number_oneLine token.span.start.line
  have within : '\n' ∉ s.shown := by
    have within := setting.oneLine
    simp only [Setting.line, List.mem_append, not_or] at within
    exact within.2.1
  rw [setting.distance] at written
  generalize (toString token.span.start.line).toList = number at written digits ⊢
  have first : '\n' ∉ "Error: ".toList ++ headline.toList := by simp [inHeadline]
  have second : '\n' ∉ "-> ".toList ++ file.toList ++ ':' :: token.span.start.text.toList := by
    simp [inFile, text_oneLine]
  have third : '\n' ∉ margin number := by simp [margin]
  have fourth : '\n' ∉ number ++ (" | ".toList ++ s.shown) := by simp [digits, within]
  have fifth : '\n' ∉ margin number ++ ' ' :: List.replicate s.left.length '-' ++ ['^'] := by
    simp [third]
  refine ⟨"Error: ".toList ++ headline.toList,
    "-> ".toList ++ file.toList ++ ':' :: token.span.start.text.toList, margin number,
    margin number ++ ' ' :: List.replicate s.left.length '-', ?_, ?_⟩
  · rw [toList_render found, written, Text.split_cons first, Text.split_cons second,
      Text.split_cons third, Text.split_cons fourth, Text.split_cons fifth]
    rfl
  · simp [margin]
    omega

end Setting

theorem exists_setting {source : String} {tokens : List Token} {token : Token}
    (scanned : Token.ofSource source = .ok tokens) (listed : token ∈ tokens)
    (proper : token.kind ≠ TokenKind.eof) : ∃ s : Setting, s.Of source.toList token := by
  obtain ⟨lead, tiles, split, rfl, -, fits⟩ := Token.ofSource_tiles scanned
  rcases List.mem_append.1 listed with among | last
  · obtain ⟨tile, there, rfl⟩ := List.mem_map.1 among
    obtain ⟨before, later, rfl⟩ := List.append_of_mem there
    have fit := fits before tile later rfl
    have around : source.toList = lead ++ before.flatMap Tile.text ++
        (tile.lexeme ++ (tile.gap ++ later.flatMap Tile.text)) := by
      simp [split, Tile.text]
    rw [around]
    exact Setting.exists_of fit.filled fit.oneLine fit.written fit.lexical (by rw [fit.span]; rfl)
  · cases List.mem_singleton.1 last
    exact absurd rfl proper

-- The report of a token has five lines. The fourth is the line of the token without white space at
-- its ends, and the caret at the end of the fifth stands below the start of the lexeme.
theorem render_points {source file headline : String} {tokens : List Token} {token : Token}
    (scanned : Token.ofSource source = .ok tokens) (listed : token ∈ tokens)
    (proper : token.kind ≠ TokenKind.eof) (inFile : '\n' ∉ file.toList)
    (inHeadline : '\n' ∉ headline.toList) :
    ∃ s : Setting, s.Of source.toList token ∧ ∃ first second third marks : List Char,
      let number := (toString token.span.start.line).toList
      Text.split '\n' (render source file token.span.start headline).toList =
        [first, second, third, number ++ (" | ".toList ++ s.shown), marks ++ ['^'], []] ∧
      marks.length = (number ++ (" | ".toList ++ s.left)).length := by
  obtain ⟨s, setting⟩ := exists_setting scanned listed proper
  exact ⟨s, setting, setting.render_lines rfl inFile inHeadline⟩

-- Tabs and a carriage return around the line, and a character of two bytes before the token.
def caretSource : String := "# note\r\n\t \tshow \"\u00e9\" + x; \r\n"

theorem caretSource_points : ∃ (tokens : List Token) (token : Token),
    Token.ofSource caretSource = .ok tokens ∧ token ∈ tokens ∧ token.kind ≠ TokenKind.eof ∧
    token.span.start = ⟨2, 15⟩ ∧
    ∃ s : Setting, s.Of caretSource.toList token ∧ ∃ first second third marks : List Char,
      let number := (toString token.span.start.line).toList
      Text.split '\n' (render caretSource "main" token.span.start "x").toList =
        [first, second, third, number ++ (" | ".toList ++ s.shown), marks ++ ['^'], []] ∧
      marks.length = (number ++ (" | ".toList ++ s.left)).length := by
  have found : ((Token.ofSource caretSource).toOption.any fun tokens => tokens.any fun token =>
      decide (token.kind ≠ TokenKind.eof) && decide (token.span.start = ⟨2, 15⟩)) = true := by
    decide +kernel
  obtain ⟨tokens, scanned, found⟩ := ok_of_any found
  obtain ⟨token, listed, holds⟩ := List.any_eq_true.1 found
  obtain ⟨proper, start⟩ := Bool.and_eq_true_iff.1 holds
  exact ⟨tokens, token, scanned, listed, of_decide_eq_true proper, of_decide_eq_true start,
    render_points scanned listed (of_decide_eq_true proper) (by simp) (by simp)⟩

example : render caretSource "main" ⟨2, 15⟩ "x" =
    "Error: x\n-> main:2:15\n  |\n2 | show \"\u00e9\" + x;\n  | -----------^\n" := by
  decide +kernel

end Excerpt

end Scriptlet
