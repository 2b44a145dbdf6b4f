import Mathlib.Data.List.Induction
import Scriptlet.Proofs.Outcome
import Scriptlet.Proofs.Token.Lexical

/-!
The tokens of a source text tile it. A text that can be scanned is its lexemes in order, with
white space and comments between them and nothing else, and every token has the exact positions
before and after its lexeme. A position is a count over all the text before it, whatever the
scanner went through to get there.
-/

namespace Scriptlet

-- Where a text ends: one line for each line feed, one column for each character after the last.
def Position.after (text : List Char) : Position :=
  ⟨1 + text.count '\n', 1 + (text.reverse.takeWhile (· != '\n')).length⟩

theorem Position.after_concat (text : List Char) (c : Char) :
    after (text ++ [c]) = (after text).step c := by
  unfold after step
  by_cases line : c = '\n'
  · subst line
    simp [Nat.add_assoc]
  · simp [line, Nat.add_comm]

theorem Position.advance_first (text : List Char) : first.advance text = after text := by
  induction text using List.reverseRecOn with
  | nil => rfl
  | append_singleton text c ih =>
    rw [advance_append, ih, after_concat]
    rfl

theorem Position.advance_after (passed text : List Char) :
    (after passed).advance text = after (passed ++ text) := by
  rw [← advance_first, ← advance_first, advance_append]

-- White space and comments, with `following` after them. A comment takes the rest of its line.
inductive Gap (following : List Char) : List Char → Prop where
  | none : Gap following []
  | blanks {run rest} (filled : run ≠ []) (blank : ∀ c ∈ run, Text.isBlank c = true)
      (others : Gap following rest) : Gap following (run ++ rest)
  | comment {line rest} (within : '\n' ∉ line)
      (ends : ∀ c ∈ (rest ++ following).head?, c = '\n') (others : Gap following rest) :
      Gap following ('#' :: line ++ rest)

-- The characters that mean something else after a backslash.
def Pattern.escapes : List (Char × Char) :=
  [('n', '\n'), ('t', '\t'), ('r', '\r'), ('\\', '\\'), ('"', '"')]

-- What the inside of a text literal stands for.
inductive Decodes : List Char → List Char → Prop where
  | nil : Decodes [] []
  | escape {c meant cs text} (listed : (c, meant) ∈ Pattern.escapes) (rest : Decodes cs text) :
      Decodes ('\\' :: c :: cs) (meant :: text)
  | backslash {cs text} (unlisted : ∀ row ∈ Pattern.escapes, cs.head? ≠ some row.1)
      (rest : Decodes cs text) : Decodes ('\\' :: cs) ('\\' :: text)
  | plain {c cs text} (other : c ≠ '\\') (rest : Decodes cs text) : Decodes (c :: cs) (c :: text)

namespace Pattern

theorem escape?_iff {c meant : Char} : escape? c = some meant ↔ (c, meant) ∈ escapes := by
  unfold escape? escapes
  split <;> simp_all [eq_comm]

theorem unescape_decodes (cs : List Char) : Decodes cs (unescape cs) := by
  fun_induction unescape cs with
  | case1 => exact .nil
  | case2 => exact .backslash (by simp) .nil
  | case3 c cs meant listed ih => exact .escape (escape?_iff.1 listed) ih
  | case4 c cs unlisted ih =>
    -- A second backslash would be an escape, so what follows this one stands for itself.
    have other : c ≠ '\\' := by
      rintro rfl
      cases unlisted
    refine .backslash ?_ (.plain other ih)
    intro row listed same
    cases Option.some.inj same
    rw [escape?_iff.2 listed] at unlisted
    cases unlisted
  | case5 c cs lone pair ih =>
    refine .plain ?_ ih
    rintro rfl
    cases cs with
    | nil => exact lone rfl rfl
    | cons d cs => exact pair d cs rfl rfl

theorem textRest?_body {cs lexeme : List Char} (found : textRest? cs = some lexeme) :
    ∃ body, lexeme = body ++ ['"'] ∧ '\n' ∉ body := by
  fun_induction textRest? cs generalizing lexeme with
  | case1 => cases found
  | case2 rest =>
    cases found
    exact ⟨[], rfl, List.not_mem_nil⟩
  | case3 => cases found
  | case4 c cs other ih =>
    obtain ⟨taken, inner, rfl⟩ := Option.map_eq_some_iff.1 found
    obtain ⟨body, rfl, within⟩ := ih inner
    exact ⟨'\\' :: c :: body, rfl, by simp [within, Ne.symm other]⟩
  | case5 => cases found
  | case6 c cs _ _ other ih =>
    obtain ⟨taken, inner, rfl⟩ := Option.map_eq_some_iff.1 found
    obtain ⟨body, rfl, within⟩ := ih inner
    obtain ⟨line, -⟩ := not_or.1 other
    exact ⟨c :: body, rfl, by simp [within, Ne.symm line]⟩

end Pattern

-- The value of a token is its lexeme, or what stands between the quotes of a text literal.
inductive Token.WrittenAs (token : Token) : List Char → Prop where
  | text {body} (kind : token.kind = .textLiteral) (meant : Decodes body token.value.toList) :
      WrittenAs token ('"' :: body ++ ['"'])
  | plain {lexeme} (kind : token.kind ≠ .textLiteral) (same : token.value.toList = lexeme) :
      WrittenAs token lexeme

namespace Pattern

variable {cs lexeme : List Char} {span : Span}

theorem oneLine {p : Char → Bool} (other : p '\n' = false) (all : ∀ c ∈ lexeme, p c = true) :
    '\n' ∉ lexeme := by
  intro inside
  have line := all '\n' inside
  rw [other] at line
  cases line

theorem word_oneLine (fits : Pattern.word.match? cs = some lexeme) : '\n' ∉ lexeme := by
  cases cs with
  | nil => cases fits
  | cons c cs =>
    simp only [match?, Option.ite_none_right_eq_some, Option.some.injEq] at fits
    obtain ⟨starts, rfl⟩ := fits
    have first : isWordChar c = true := by simp [isWordChar, starts]
    exact oneLine (by decide)
      (List.forall_mem_cons.2 ⟨first, List.all_eq_true.1 List.all_takeWhile⟩)

theorem pointMatch?_oneLine (found : pointMatch? cs = some lexeme) : '\n' ∉ lexeme := by
  obtain ⟨whole, fraction, rfl, digital, fractional⟩ := pointMatch?_parts found
  have before : '\n' ∉ whole := oneLine (by decide) digital.2
  have behind : '\n' ∉ fraction := oneLine (by decide) fractional.2
  simp [before, behind]

theorem negated?_oneLine {inner : List Char → Option (List Char)}
    (plain : ∀ {rest taken}, inner rest = some taken → '\n' ∉ taken)
    (found : negated? inner cs = some lexeme) : '\n' ∉ lexeme := by
  obtain ⟨rest, taken, inside, rfl⟩ := negated?_parts found
  simp [plain inside]

theorem wholeMatch?_oneLine (found : wholeMatch? cs = some lexeme) : '\n' ∉ lexeme :=
  oneLine (by decide) (run?_digits found).2

theorem text_body (fits : Pattern.text.match? cs = some lexeme) :
    ∃ body, lexeme = '"' :: body ++ ['"'] ∧ '\n' ∉ body := by
  unfold match? at fits
  split at fits <;> try contradiction
  obtain ⟨taken, found, rfl⟩ := Option.map_eq_some_iff.1 fits
  obtain ⟨body, rfl, within⟩ := textRest?_body found
  exact ⟨body, rfl, within⟩

theorem match?_oneLine {p : Pattern} {token : Token} (member : p ∈ table)
    (fits : p.match? cs = some lexeme) (made : p.token? lexeme span = .ok (some token)) :
    '\n' ∉ lexeme := by
  cases p with
  | word => exact word_oneLine fits
  | point negative =>
    cases negative with
    | true => exact negated?_oneLine pointMatch?_oneLine fits
    | false => exact pointMatch?_oneLine fits
  | integer negative =>
    cases negative with
    | true => exact negated?_oneLine wholeMatch?_oneLine fits
    | false => exact wholeMatch?_oneLine fits
  | blanks | comment | quote => cases made
  | text =>
    obtain ⟨body, rfl, within⟩ := text_body fits
    simp [within]
  | symbol spelling kind value =>
    obtain ⟨-, listed⟩ := symbol_listed member
    have plain : ∀ row ∈ symbols, '\n' ∉ row.2 := by decide
    simp only [match?, Option.ite_none_right_eq_some, Option.some.injEq] at fits
    obtain ⟨-, rfl⟩ := fits
    exact plain _ listed

theorem token?_written {p : Pattern} {token : Token} (member : p ∈ table)
    (fits : p.match? cs = some lexeme) (made : p.token? lexeme span = .ok (some token)) :
    token.span = span ∧ token.WrittenAs lexeme := by
  have symbolic : ∀ row ∈ symbols, row.1 ≠ .textLiteral := by decide
  have worded : ∀ row ∈ reserved, row.2 ≠ .textLiteral := by decide
  cases p with
  | word =>
    unfold token? at made
    dsimp only at made
    split at made
    · rename_i kind found
      cases made
      exact ⟨rfl, .plain (worded _ (lookup_mem found)) String.toList_ofList⟩
    · split at made
      · cases made
      · cases made
        exact ⟨rfl, .plain (by simp) String.toList_ofList⟩
  | point negative | integer negative =>
    unfold token? at made
    dsimp only at made
    split at made
    · cases made
      refine ⟨rfl, .plain ?_ String.toList_ofList⟩
      cases negative <;> simp
    · cases made
  | blanks | comment | quote => cases made
  | text =>
    cases made
    obtain ⟨body, rfl, -⟩ := text_body fits
    refine ⟨rfl, .text rfl ?_⟩
    have inner : inside ('"' :: body ++ ['"']) = body := by simp [inside]
    rw [inner, String.toList_ofList]
    exact unescape_decodes body
  | symbol spelling kind value =>
    obtain ⟨rfl, listed⟩ := symbol_listed member
    simp only [match?, Option.ite_none_right_eq_some, Option.some.injEq] at fits
    cases made
    exact ⟨rfl, .plain (symbolic _ listed) (String.toList_ofList.trans fits.2)⟩

theorem token?_gap {p : Pattern} {rest following gap : List Char}
    (fits : p.match? (lexeme ++ rest) = some lexeme) (made : p.token? lexeme span = .ok none)
    (others : Gap following gap) (split : rest = gap ++ following) :
    Gap following (lexeme ++ gap) := by
  cases p with
  | word =>
    unfold token? at made
    dsimp only at made
    split at made
    · cases made
    · split at made <;> cases made
  | point negative | integer negative =>
    unfold token? at made
    dsimp only at made
    split at made <;> cases made
  | blanks =>
    have run : run? Text.isBlank (lexeme ++ rest) = some lexeme := fits
    exact .blanks (run?_takes run).1 (run?_all run) others
  | comment =>
    unfold match? at fits
    split at fits <;> try contradiction
    rename_i cs _ starts
    cases fits
    -- The comment has taken all characters of its line.
    have onward : cs = cs.takeWhile (· != '\n') ++ rest := (List.cons.inj starts).2.symm
    have taken : rest = cs.dropWhile (· != '\n') :=
      List.append_cancel_left (onward.symm.trans List.takeWhile_append_dropWhile.symm)
    refine .comment ?_ ?_ others
    · exact oneLine (p := (· != '\n')) (by decide) (List.all_eq_true.1 List.all_takeWhile)
    · intro c ahead
      have stops := List.head?_dropWhile_not (· != '\n') cs
      rw [← taken, split, Option.mem_def.1 ahead] at stops
      simpa using stops
  | text | quote | symbol => cases made

end Pattern

structure Tile where
  token : Token
  lexeme : List Char
  -- What stands between the lexeme and the next one, or the end.
  gap : List Char

def Tile.text (tile : Tile) : List Char := tile.lexeme ++ tile.gap

-- The lexeme of the tile stands after `before`, and `later` comes after the gap.
structure Tile.Fits (tile : Tile) (before later : List Char) : Prop where
  filled : tile.lexeme ≠ []
  oneLine : '\n' ∉ tile.lexeme
  span : tile.token.span = ⟨.after before, .after (before ++ tile.lexeme)⟩
  lexical : tile.token.Lexical
  written : tile.token.WrittenAs tile.lexeme
  gap : Gap later tile.gap

-- A text that stands after `passed` is a first gap and the tiles, and the tokens are theirs.
structure Tiling (passed text : List Char) (tokens : List Token) (lead : List Char)
    (tiles : List Tile) : Prop where
  split : text = lead ++ tiles.flatMap Tile.text
  ended : tokens = tiles.map (·.token) ++ [.eof (.after (passed ++ text))]
  gap : Gap (tiles.flatMap Tile.text) lead
  fits : ∀ before tile later, tiles = before ++ tile :: later →
    tile.Fits (passed ++ lead ++ before.flatMap Tile.text) (later.flatMap Tile.text)

namespace Tiling

variable {passed lexeme text lead : List Char} {tokens : List Token} {tiles : List Tile}

theorem nothing : Tiling passed [] [.eof (.after passed)] [] [] := by
  refine ⟨rfl, by simp, .none, ?_⟩
  intro before tile later split
  simp at split

theorem lengthen (tiling : Tiling (passed ++ lexeme) text tokens lead tiles)
    (gap : Gap (tiles.flatMap Tile.text) (lexeme ++ lead)) :
    Tiling passed (lexeme ++ text) tokens (lexeme ++ lead) tiles := by
  obtain ⟨split, ended, -, fits⟩ := tiling
  refine ⟨by simp [split], by simp [ended], gap, ?_⟩
  intro before tile later listed
  simpa using fits before tile later listed

theorem prepend {token : Token} (tiling : Tiling (passed ++ lexeme) text tokens lead tiles)
    (fits : Tile.Fits ⟨token, lexeme, lead⟩ passed (tiles.flatMap Tile.text)) :
    Tiling passed (lexeme ++ text) (token :: tokens) [] (⟨token, lexeme, lead⟩ :: tiles) := by
  obtain ⟨split, ended, -, others⟩ := tiling
  refine ⟨by simp [split, Tile.text], by simp [ended], .none, ?_⟩
  intro before tile later listed
  cases before with
  | nil =>
    obtain ⟨rfl, rfl⟩ := List.cons.inj listed
    simpa using fits
  | cons first before =>
    obtain ⟨rfl, behind⟩ := List.cons.inj listed
    simpa [Tile.text] using others before tile later behind

end Tiling

namespace Token

theorem scan_tiles {r : Reader} {tokens : List Token} {passed : List Char}
    (placed : r.position = .after passed) (ran : scan r = .ok tokens) :
    ∃ lead tiles, Tiling passed r.rest tokens lead tiles := by
  fun_induction scan r generalizing tokens passed with
  | case1 r empty =>
    cases ran
    rw [empty, placed]
    exact ⟨[], [], .nothing⟩
  | case2 => cases ran
  | case3 => cases ran
  | case4 r more token n found rest scanned ih =>
    cases ran
    obtain ⟨p, member, lexeme, fits, rfl, made⟩ := front_ok found
    obtain ⟨filled, text, split⟩ := Pattern.match?_takes member fits
    have next : (r.advance lexeme.length).position = .after (passed ++ lexeme) := by
      rw [Reader.advance, ← split, List.take_left, placed, Position.advance_after]
    have left : (r.advance lexeme.length).rest = text := by
      rw [Reader.advance, ← split, List.drop_left]
    obtain ⟨lead, tiles, tiling⟩ := ih next scanned
    rw [left] at tiling
    rw [← split] at fits ⊢
    cases token with
    | none => exact ⟨_, _, tiling.lengthen (Pattern.token?_gap fits made tiling.gap tiling.split)⟩
    | some token =>
      obtain ⟨span, written⟩ := Pattern.token?_written member fits made
      refine ⟨_, _, tiling.prepend ⟨filled, ?_, ?_, ?_, written, tiling.gap⟩⟩
      · exact Pattern.match?_oneLine member fits made
      · rw [span, placed, Position.advance_after]
      · exact Pattern.token?_lexical member fits made

theorem ofSource_tiles {source : String} {tokens : List Token}
    (scanned : ofSource source = .ok tokens) :
    ∃ lead tiles, Tiling [] source.toList tokens lead tiles :=
  scan_tiles rfl scanned

-- Two lines with a comment, a character of two bytes and two backslashes of different meaning.
def tiledSource : String := "show \"\u00e9\\n\\q\"; # note\n\tx += ~2.5;"

def tiledTokens : List (String × Span) :=
  [("show", ⟨⟨1, 1⟩, ⟨1, 5⟩⟩), ("\u00e9\n\\q", ⟨⟨1, 6⟩, ⟨1, 13⟩⟩), (";", ⟨⟨1, 13⟩, ⟨1, 14⟩⟩),
   ("x", ⟨⟨2, 2⟩, ⟨2, 3⟩⟩), ("+=", ⟨⟨2, 4⟩, ⟨2, 6⟩⟩), ("~2.5", ⟨⟨2, 7⟩, ⟨2, 11⟩⟩),
   (";", ⟨⟨2, 11⟩, ⟨2, 12⟩⟩), ("EOF", ⟨⟨2, 12⟩, ⟨2, 12⟩⟩)]

theorem tiledSource_tiles : ∃ tokens, ofSource tiledSource = .ok tokens ∧
    tokens.map (fun t => (t.value, t.span)) = tiledTokens ∧
    ∃ lead tiles, Tiling [] tiledSource.toList tokens lead tiles := by
  have found : ((ofSource tiledSource).toOption.any fun tokens =>
      decide (tokens.map (fun t => (t.value, t.span)) = tiledTokens)) = true := by decide +kernel
  obtain ⟨tokens, scanned, listed⟩ := ok_of_any found
  exact ⟨tokens, scanned, of_decide_eq_true listed, ofSource_tiles scanned⟩

end Token

end Scriptlet
