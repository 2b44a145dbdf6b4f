import Mathlib.Data.List.TakeWhile
import Scriptlet.Proofs.Token.Lines

/-!
Tokens survive being written. What a scan finds are kinds with values. Written down one after the
other, with white space or comments between each two of them, such pairs are found again, in order
and with nothing else; and a scan finds no other pairs.
-/

namespace Scriptlet

namespace Pattern

variable {c : Char} {w xs rest whole fraction : List Char}

-- White space, comments and text literals start with other characters.
def isPlain (c : Char) : Bool := !Text.isBlank c && c != '#' && c != '"'

theorem isPlain_of_word (word : isWordChar c = true) : isPlain c = true := by
  have shown : Text.isBlank c = false := by
    cases blank : Text.isBlank c with
    | false => rfl
    | true => exact absurd (blank_apart blank) (by simp [word])
  have other : ∀ d : Char, isWordChar d = false → c ≠ d := by
    intro d apart same
    rw [same, apart] at word
    cases word
  simp [isPlain, shown, other '#' (by decide), other '"' (by decide)]

-- What a word, a number or a symbol is does not depend on what stands apart from it.
theorem first?_stop (plain : w.head?.any isPlain = true) (stops : Stops rest) :
    first? (w ++ rest) = first? w := by
  cases w with
  | nil => cases plain
  | cons c xs =>
    simp only [List.head?_cons, Option.any_some, isPlain, Bool.and_eq_true, Bool.not_eq_true',
      bne_iff_ne] at plain
    obtain ⟨⟨shown, code⟩, quote⟩ := plain
    apply first?_congr
    intro p member
    cases p with
    | word | point | integer | symbol => exact match?_stop member rfl stops
    | blanks => simp [match?, run?, shown]
    | comment => simp [match?, code]
    | text | quote => simp [match?, quote]

theorem first?_word (starts : isWordStart c = true) (all : ∀ d ∈ xs, isWordChar d = true) :
    first? (c :: xs) = some (.word, c :: xs) := by
  have whole : xs.takeWhile isWordChar = xs := List.takeWhile_eq_self_iff.2 all
  have split : table = [] ++ word :: table.drop 1 := rfl
  exact first?_of split (List.forall_mem_nil _) (by simp [match?, starts, whole])

theorem run?_whole (digital : Integer.AreDigits w) : run? Integer.isDigit w = some w := by
  have whole : w.takeWhile Integer.isDigit = w := List.takeWhile_eq_self_iff.2 digital.2
  unfold run?
  rw [whole]
  split
  · exact absurd rfl digital.1
  · rfl

theorem pointMatch?_digits (digital : Integer.AreDigits w) : pointMatch? w = none := by
  simp [pointMatch?, run?_whole digital]

theorem pointMatch?_point (digital : Integer.AreDigits whole)
    (fractional : Integer.AreDigits fraction) :
    pointMatch? (whole ++ '.' :: fraction) = some (whole ++ '.' :: fraction) := by
  have point : ∀ c ∈ ('.' :: fraction).head?, Integer.isDigit c = false := by
    intro c first
    cases Option.some.inj first
    decide
  simp [pointMatch?, run?_stop point, run?_whole digital, run?_whole fractional]

theorem digit_apart (digit : Integer.isDigit c = true) :
    Pattern.word.match? (c :: xs) = none ∧ ∀ inner, negated? inner (c :: xs) = none := by
  have digit : '0'.toNat ≤ c.toNat ∧ c.toNat ≤ '9'.toNat := by
    simp only [Integer.isDigit, Bool.and_eq_true, decide_eq_true_eq] at digit
    exact digit
  have below : ∀ first last : Char, '9'.toNat < first.toNat →
      (decide (first ≤ c) && decide (c ≤ last)) = false := by
    intro first last above
    have other : ¬ first ≤ c := by
      intro reached
      have reached : first.toNat ≤ c.toNat := reached
      omega
    rw [decide_eq_false other, Bool.false_and]
  have other : ∀ d : Char, '9'.toNat < d.toNat → c ≠ d := by
    intro d above same
    rw [same] at digit
    omega
  have word : isWordStart c = false := by
    simp [isWordStart, isLetter, below 'a' 'z' (by decide), below 'A' 'Z' (by decide),
      other '_' (by decide)]
  refine ⟨by simp [match?, word], ?_⟩
  intro inner
  simp [negated?, other '~' (by decide)]

theorem first?_point (digital : Integer.AreDigits whole)
    (fractional : Integer.AreDigits fraction) :
    first? (whole ++ '.' :: fraction) = some (.point false, whole ++ '.' :: fraction) := by
  have split : table = [word, point true] ++ point false :: table.drop 3 := rfl
  refine first?_of split ?_ (pointMatch?_point digital fractional)
  obtain ⟨c, cs, rfl⟩ := List.exists_cons_of_ne_nil digital.1
  obtain ⟨word, unsigned⟩ := digit_apart (digital.2 c List.mem_cons_self)
  exact List.forall_mem_cons.2 ⟨word, List.forall_mem_singleton.2 (unsigned _)⟩

theorem first?_integer (digital : Integer.AreDigits w) : first? w = some (.integer false, w) := by
  have split : table = [word, point true, point false, integer true] ++
      integer false :: table.drop 5 := rfl
  refine first?_of split ?_ (run?_whole digital)
  have point := pointMatch?_digits digital
  obtain ⟨c, cs, rfl⟩ := List.exists_cons_of_ne_nil digital.1
  obtain ⟨word, unsigned⟩ := digit_apart (digital.2 c List.mem_cons_self)
  simp only [List.forall_mem_cons]
  exact ⟨word, unsigned _, point, unsigned _, List.forall_mem_nil _⟩

theorem first?_negativePoint (digital : Integer.AreDigits whole)
    (fractional : Integer.AreDigits fraction) :
    first? ('~' :: whole ++ '.' :: fraction) =
      some (.point true, '~' :: whole ++ '.' :: fraction) := by
  have split : table = [word] ++ point true :: table.drop 2 := rfl
  refine first?_of split (List.forall_mem_singleton.2 rfl) ?_
  simp [match?, negated?, pointMatch?_point digital fractional]

theorem first?_negative (digital : Integer.AreDigits w) :
    first? ('~' :: w) = some (.integer true, '~' :: w) := by
  have split : table = [word, point true, point false] ++ integer true :: table.drop 4 := rfl
  refine first?_of split ?_ (by simp [match?, negated?, wholeMatch?, run?_whole digital])
  simp only [List.forall_mem_cons]
  exact ⟨rfl, by simp [match?, negated?, pointMatch?_digits digital], rfl, List.forall_mem_nil _⟩

-- The pattern takes the whole text, and a token of this kind comes of it.
structure Makes (p : Pattern) (kind : TokenKind) (w : List Char) : Prop where
  plain : w.head?.any isPlain = true
  found : first? w = some (p, w)
  made : ∀ span, p.token? w span = .ok (some ⟨kind, String.ofList w, span⟩)

theorem makes_symbol {kind : TokenKind} (listed : (kind, w) ∈ symbols) :
    Makes (.symbol w kind w) kind w := by
  have plain : ∀ row ∈ symbols, row.2.head?.any isPlain = true := by decide
  have found : ∀ row ∈ symbols, first? row.2 = some (.symbol row.2 row.1 row.2, row.2) := by decide
  exact ⟨plain (kind, w) listed, found (kind, w) listed, fun _ => rfl⟩

theorem makes_reserved {kind : TokenKind} {word : String} (listed : (word, kind) ∈ reserved) :
    Makes .word kind word.toList := by
  have plain : ∀ row ∈ reserved, row.1.toList.head?.any isPlain = true := by decide
  have found : ∀ row ∈ reserved, first? row.1.toList = some (.word, row.1.toList) := by decide
  have known : ∀ row ∈ reserved, reserved.lookup row.1 = some row.2 := by decide
  refine ⟨plain (word, kind) listed, found (word, kind) listed, ?_⟩
  intro span
  simp [token?, known (word, kind) listed]

theorem makes_identifier (named : IsIdentifier w) : Makes .word .identifier w := by
  obtain ⟨⟨c, cs, rfl, lower, all⟩, short, free⟩ := named
  have starts : isWordStart c = true := by simp [isWordStart, isLetter, lower]
  have word : isWordChar c = true := by rw [isWordChar, starts, Bool.true_or]
  have flawless : wordFlaw? (c :: cs) = none := by
    unfold wordFlaw?
    rw [if_neg (by simp [lower]), if_neg (Nat.not_lt.2 short)]
  refine ⟨isPlain_of_word word, first?_word starts all, ?_⟩
  intro span
  simp only [token?, free, flawless]

theorem plain_digits (digital : Integer.AreDigits w) : (w ++ xs).head?.any isPlain = true := by
  obtain ⟨c, cs, rfl⟩ := List.exists_cons_of_ne_nil digital.1
  have word : isWordChar c = true := by
    rw [isWordChar, digital.2 c List.mem_cons_self, Bool.or_true]
  exact isPlain_of_word word

theorem makes_integer (digital : Integer.AreDigits w) (short : integerFits w = true) :
    Makes (.integer false) .integerLiteral w := by
  have plain : (w ++ []).head?.any isPlain = true := plain_digits digital
  exact ⟨List.append_nil w ▸ plain, first?_integer digital,
    fun span => by simp [token?, unsignedPart, short]⟩

theorem makes_negative (digital : Integer.AreDigits w) (short : integerFits w = true) :
    Makes (.integer true) .negIntegerLiteral ('~' :: w) :=
  ⟨rfl, first?_negative digital, fun span => by simp [token?, unsignedPart, short]⟩

theorem makes_point (digital : Integer.AreDigits whole) (fractional : Integer.AreDigits fraction)
    (short : whole.length ≤ maxDigits ∧ fraction.length ≤ maxDigits) :
    Makes (.point false) .pointLiteral (whole ++ '.' :: fraction) := by
  have fits := (pointFits_iff digital).2 short
  exact ⟨plain_digits digital, first?_point digital fractional,
    fun span => by simp [token?, unsignedPart, fits]⟩

theorem makes_negativePoint (digital : Integer.AreDigits whole)
    (fractional : Integer.AreDigits fraction)
    (short : whole.length ≤ maxDigits ∧ fraction.length ≤ maxDigits) :
    Makes (.point true) .negPointLiteral ('~' :: whole ++ '.' :: fraction) := by
  have fits := (pointFits_iff digital).2 short
  exact ⟨rfl, first?_negativePoint digital fractional,
    fun span => by simp [token?, unsignedPart, fits]⟩

theorem Stops.code : Stops ('#' :: xs) := by
  have apart : isWordChar '#' = false ∧ '#' ≠ '.' ∧ ∀ row ∈ symbols, '#' ∉ row.2 := by decide
  intro c first
  cases Option.some.inj first
  exact apart

theorem first?_comment {line : List Char} (all : ∀ c ∈ line, (c != '\n') = true) :
    first? ('#' :: line) = some (.comment, '#' :: line) := by
  have split : table = [word, point true, point false, integer true, integer false, blanks] ++
      comment :: table.drop 7 := rfl
  refine first?_of split ?_ ?_
  · simp only [List.forall_mem_cons]
    exact ⟨rfl, rfl, rfl, rfl, rfl, rfl, List.forall_mem_nil _⟩
  · rw [match?, List.takeWhile_eq_self_iff.2 all]

-- The inside of a literal, and its text: each character stands for itself or is escaped.
inductive Means : List Char → List Char → Prop where
  | nil : Means [] []
  | plain {c : Char} {inner text : List Char} (free : c ≠ '\\' ∧ c ≠ '"' ∧ c ≠ '\n')
      (others : Means inner text) : Means (c :: inner) (c :: text)
  | escape {c meant : Char} {inner text : List Char} (listed : escape? c = some meant)
      (others : Means inner text) : Means ('\\' :: c :: inner) (meant :: text)

namespace Means

variable {inner inner' text text' : List Char}

theorem append (first : Means inner text) (second : Means inner' text') :
    Means (inner ++ inner') (text ++ text') := by
  induction first with
  | nil => exact second
  | plain free others ih => exact .plain free ih
  | escape listed others ih => exact .escape listed ih

theorem flatMap {spell : Char → List Char} (each : ∀ c ∈ text, Means (spell c) [c]) :
    Means (text.flatMap spell) text := by
  induction text with
  | nil => exact .nil
  | cons c text ih =>
    obtain ⟨first, others⟩ := List.forall_mem_cons.1 each
    exact first.append (ih others)

theorem unescape_eq (means : Means inner text) : unescape inner = text := by
  induction means with
  | nil => rfl
  | plain free others ih => simp [unescape, free.1, ih]
  | escape listed others ih => simp [unescape, listed, ih]

theorem textRest?_eq (means : Means inner text) (rest : List Char) :
    textRest? (inner ++ '"' :: rest) = some (inner ++ ['"']) := by
  induction means with
  | nil => simp [textRest?]
  | plain free others ih => simp [textRest?, free, ih]
  | @escape c meant inner text listed others ih =>
    have line : c ≠ '\n' := by
      rintro rfl
      cases listed
    simp [textRest?, line, ih]

theorem first?_eq (means : Means inner text) (rest : List Char) :
    first? ('"' :: inner ++ '"' :: rest) = some (.text, '"' :: inner ++ ['"']) := by
  have split : table = [word, point true, point false, integer true, integer false, blanks,
      comment] ++ Pattern.text :: table.drop 8 := rfl
  refine first?_of split ?_ (by simp [match?, means.textRest?_eq])
  simp only [List.forall_mem_cons]
  exact ⟨rfl, rfl, rfl, rfl, rfl, rfl, rfl, List.forall_mem_nil _⟩

theorem token?_eq (means : Means inner text) (span : Span) :
    Pattern.text.token? ('"' :: inner ++ ['"']) span =
      .ok (some ⟨.textLiteral, String.ofList text, span⟩) := by
  have inside : inside ('"' :: inner ++ ['"']) = inner := by simp [Pattern.inside]
  rw [token?, inside, means.unescape_eq]

end Means

-- How a character stands between the quotes of a text literal.
def escaped (c : Char) : List Char :=
  if c = '\\' then ['\\', '\\'] else if c = '"' then ['\\', '"']
  else if c = '\n' then ['\\', 'n'] else [c]

-- A literal with this text.
def quoted (text : List Char) : List Char := '"' :: text.flatMap escaped ++ ['"']

theorem means_escaped (text : List Char) : Means (text.flatMap escaped) text := by
  refine .flatMap fun c _ => ?_
  unfold escaped
  split_ifs with backslash quote line
  · subst backslash
    exact .escape rfl .nil
  · subst quote
    exact .escape rfl .nil
  · subst line
    exact .escape rfl .nil
  · exact .plain ⟨backslash, quote, line⟩ .nil

end Pattern

namespace Token

-- What a scan finds, apart from where it stands.
abbrev Content := TokenKind × String

def content (t : Token) : Content := (t.kind, t.value)

namespace Content

-- A text literal is written between quotes, everything else by its value.
def written (c : Content) : List Char :=
  if c.1 = .textLiteral then Pattern.quoted c.2.toList else c.2.toList

def Lexical (c : Content) : Prop := Token.Lexical ⟨c.1, c.2, default⟩

end Content

variable {t : Token} {c : Content} {rest text : List Char} {position : Position}

-- What is at the front of a text that starts with this token.
def Taken (t : Token) (rest : List Char) : Prop :=
  ∀ position, front ⟨t.content.written ++ rest, position⟩ =
    .ok (some { t with span := ⟨position, position.advance t.content.written⟩ },
      t.content.written.length)

theorem taken_of {p : Pattern}
    (found : Pattern.first? (t.content.written ++ rest) = some (p, t.content.written))
    (made : ∀ span, p.token? t.content.written span = .ok (some { t with span := span })) :
    t.Taken rest := by
  intro position
  rw [front_some found, made]
  rfl

theorem taken_plain {p : Pattern} {w : List Char} (same : t.value.toList = w)
    (other : t.kind ≠ .textLiteral) (makes : p.Makes t.kind w) (stops : Pattern.Stops rest) :
    t.Taken rest := by
  have written : t.content.written = w := (if_neg other).trans same
  have value : String.ofList w = t.value := by rw [← same, String.ofList_toList]
  refine taken_of (p := p) ?_ ?_
  · rw [written, Pattern.first?_stop makes.plain stops, makes.found]
  · intro span
    rw [written, makes.made, value]

theorem Lexical.taken (lexical : t.Lexical) (stops : Pattern.Stops rest) : t.Taken rest := by
  cases lexical with
  | @symbol kind spelling _ listed =>
    have other : ∀ row ∈ Pattern.symbols, row.1 ≠ .textLiteral := by decide
    exact taken_plain String.toList_ofList (other _ listed) (Pattern.makes_symbol listed) stops
  | @reserved kind word _ listed =>
    have other : ∀ row ∈ Pattern.reserved, row.2 ≠ .textLiteral := by decide
    exact taken_plain rfl (other _ listed) (Pattern.makes_reserved listed) stops
  | identifier named =>
    exact taken_plain String.toList_ofList (by simp) (Pattern.makes_identifier named) stops
  | integer digital short =>
    exact taken_plain String.toList_ofList (by simp) (Pattern.makes_integer digital short) stops
  | negative digital short =>
    exact taken_plain String.toList_ofList (by simp) (Pattern.makes_negative digital short) stops
  | point digital fractional short =>
    exact taken_plain String.toList_ofList (by simp)
      (Pattern.makes_point digital fractional short) stops
  | negativePoint digital fractional short =>
    exact taken_plain String.toList_ofList (by simp)
      (Pattern.makes_negativePoint digital fractional short) stops
  | @text value span =>
    have written : (content ⟨.textLiteral, value, span⟩).written =
        Pattern.quoted value.toList := rfl
    have means := Pattern.means_escaped value.toList
    refine taken_of (p := .text) ?_ fun span => ?_
    · rw [written, Pattern.quoted, List.append_assoc]
      exact means.first?_eq rest
    · rw [written, Pattern.quoted, means.token?_eq, String.ofList_toList]

-- A run of white space, a comment with the end of its line, or several of these.
inductive Separator : List Char → Prop where
  | blanks {run : List Char} (filled : run ≠ []) (blank : ∀ c ∈ run, Text.isBlank c = true) :
      Separator run
  | comment {line : List Char} (inside : '\n' ∉ line) : Separator ('#' :: line ++ ['\n'])
  | append {first second : List Char} (before : Separator first) (after : Separator second) :
      Separator (first ++ second)

theorem Separator.stops {apart : List Char} (separator : Separator apart) :
    Pattern.Stops (apart ++ rest) := by
  induction separator generalizing rest with
  | @blanks run filled blank =>
    obtain ⟨c, run, rfl⟩ := List.exists_cons_of_ne_nil filled
    exact .blank (blank c List.mem_cons_self)
  | comment => exact .code
  | append before after ih _ =>
    rw [List.append_assoc]
    exact ih

theorem scan_whole {found : Option Token} (filled : text ≠ [])
    (all : front ⟨text, position⟩ = .ok (found, text.length)) :
    scan ⟨text, position⟩ = .ok (found.toList ++ [eof (position.advance text)]) := by
  have done : Reader.advance ⟨text, position⟩ text.length = ⟨[], position.advance text⟩ := by
    simp [Reader.advance]
  rw [scan_step filled, all, Except.bind, done, scan]
  simp [Except.map]

theorem scan_comment {line : List Char} (inside : '\n' ∉ line) :
    scan ⟨'#' :: line, position⟩ = .ok [eof (position.advance ('#' :: line))] := by
  have all : ∀ c ∈ line, (c != '\n') = true := by
    intro c member
    exact bne_iff_ne.2 (ne_of_mem_of_not_mem member inside)
  have found : front ⟨'#' :: line, position⟩ = .ok (none, ('#' :: line).length) := by
    rw [front_some (Pattern.first?_comment all)]
    rfl
  exact scan_whole (List.cons_ne_nil _ _) found

theorem Separator.scan_behind {apart : List Char} (separator : Separator apart) :
    scan ⟨apart ++ rest, position⟩ = scan ⟨rest, position.advance apart⟩ := by
  induction separator generalizing rest position with
  | blanks filled blank => exact scan_blanks blank
  | @comment line inside =>
    have split : '#' :: line ++ ['\n'] ++ rest = '#' :: line ++ '\n' :: rest := by simp
    have line_end : (position.advance ('#' :: line)).advance ['\n'] =
        (position.advance ('#' :: line)).step '\n' := rfl
    rw [split, scan_above, scan_comment inside, Position.advance_append, line_end]
    cases scan ⟨rest, (position.advance ('#' :: line)).step '\n'⟩ <;> rfl
  | append before after ih ih' =>
    rw [List.append_assoc, ih, ih', Position.advance_append]

-- A text that has these tokens, each written and apart from the next.
inductive Joined : List Content → List Char → Prop where
  | none : Joined [] []
  | last {c : Content} : Joined [c] c.written
  | more {c next : Content} {others : List Content} {apart text : List Char}
      (separator : Separator apart) (joined : Joined (next :: others) text) :
      Joined (c :: next :: others) (c.written ++ apart ++ text)

theorem Content.Lexical.scan_written (lexical : c.Lexical) (stops : Pattern.Stops rest) :
    scan ⟨c.written ++ rest, position⟩ =
      (scan ⟨rest, position.advance c.written⟩).map
        (⟨c.1, c.2, ⟨position, position.advance c.written⟩⟩ :: ·) := by
  have found : front ⟨c.written ++ rest, position⟩ = .ok
      (some ⟨c.1, c.2, ⟨position, position.advance c.written⟩⟩, c.written.length) :=
    Token.Lexical.taken lexical stops position
  have more : c.written ++ rest ≠ [] := by
    obtain ⟨positive, within⟩ := front_length found
    exact List.length_pos_iff.1 (Nat.lt_of_lt_of_le positive within)
  rw [scan_step more, found]
  simp [Except.bind, Reader.advance]

-- By the tokens: the first is at the front of the text, and a separator behind it is passed over.
theorem Joined.scan_contents {tokens : List Content} (joined : Joined tokens text)
    (lexical : ∀ c ∈ tokens, c.Lexical) :
    ∃ scanned, scan ⟨text, position⟩ = .ok scanned ∧
      scanned.map content = tokens ++ [(.eof, "EOF")] := by
  induction joined generalizing position with
  | none => exact ⟨_, scan_blank_text (List.forall_mem_nil _), rfl⟩
  | @last c =>
    have stops : Pattern.Stops [] := by simp [Pattern.Stops]
    rw [← List.append_nil c.written, (lexical c List.mem_cons_self).scan_written stops,
      scan_blank_text (List.forall_mem_nil _)]
    exact ⟨_, rfl, rfl⟩
  | @more c next others apart text separator joined ih =>
    rw [List.forall_mem_cons] at lexical
    obtain ⟨behind, scanned, contents⟩ :=
      @ih ((position.advance c.written).advance apart) lexical.2
    rw [List.append_assoc, lexical.1.scan_written separator.stops, separator.scan_behind, scanned]
    refine ⟨_, rfl, ?_⟩
    rw [List.map_cons, contents]
    rfl

-- Tokens that are written down are found again, and no others are ever found.
theorem ofSource_survives :
    (∀ tokens text, (∀ c ∈ tokens, Content.Lexical c) → Joined tokens text →
      ∃ scanned, ofSource (String.ofList text) = .ok scanned ∧
        scanned.map content = tokens ++ [(.eof, "EOF")]) ∧
    ∀ source scanned, ofSource source = .ok scanned →
      ∃ tokens, scanned.map content = tokens ++ [(.eof, "EOF")] ∧
        ∀ c ∈ tokens, Content.Lexical c := by
  constructor
  · intro tokens text lexical joined
    rw [ofSource, Reader.ofString, String.toList_ofList]
    exact joined.scan_contents lexical
  · intro source scanned found
    obtain ⟨body, stop, rfl, lexical⟩ := ofSource_ended found
    refine ⟨body.map content, by simp [content, eof], ?_⟩
    intro c member
    obtain ⟨t, inside, rfl⟩ := List.mem_map.1 member
    exact (lexical t inside).congr rfl rfl

def closeTokens : List Content :=
  [(.negIntegerLiteral, "~5"), (.tilde, "~"), (.integerLiteral, "5"), (.assignment, "="),
    (.equals, "=="), (.pointLiteral, "1.5"), (.textLiteral, "\\n\n")]

def closeText : String := "~5 ~ 5# sum\n= ==\t 1.5 # text\n\"\\\\n\\n\""

theorem closeTokens_lexical : ∀ c ∈ closeTokens, Content.Lexical c := by
  have one : Integer.AreDigits ['1'] := ⟨by simp, List.forall_mem_singleton.2 rfl⟩
  have five : Integer.AreDigits ['5'] := ⟨by simp, List.forall_mem_singleton.2 rfl⟩
  simp only [closeTokens, List.forall_mem_cons]
  exact ⟨.negative five rfl, @Lexical.symbol .tilde ['~'] _ (by decide),
    .integer five rfl, @Lexical.symbol .assignment ['='] _ (by decide),
    @Lexical.symbol .equals ['=', '='] _ (by decide),
    .point one five (by simp [Pattern.maxDigits]), .text, List.forall_mem_nil _⟩

theorem closeTokens_joined : Joined closeTokens closeText.toList := by
  have space : Separator [' '] := .blanks (by simp) (List.forall_mem_singleton.2 rfl)
  have tab : Separator ['\t'] := .blanks (by simp) (List.forall_mem_singleton.2 rfl)
  have sum : Separator "# sum\n".toList := @Separator.comment " sum".toList (by decide)
  have text : Separator "# text\n".toList := @Separator.comment " text".toList (by decide)
  exact .more space (.more space (.more sum (.more space (.more (tab.append space)
    (.more (space.append text) .last)))))

theorem closeTokens_survive :
    (∃ scanned, ofSource (String.ofList closeText.toList) = .ok scanned ∧
      scanned.map content = closeTokens ++ [(.eof, "EOF")]) ∧
    ∃ scanned tokens, ofSource (String.ofList closeText.toList) = .ok scanned ∧
      scanned.map content = tokens ++ [(.eof, "EOF")] ∧ ∀ c ∈ tokens, Content.Lexical c := by
  obtain ⟨scanned, found, contents⟩ :=
    ofSource_survives.1 closeTokens closeText.toList closeTokens_lexical closeTokens_joined
  obtain ⟨tokens, listed, lexical⟩ := ofSource_survives.2 _ scanned found
  exact ⟨⟨scanned, found, contents⟩, scanned, tokens, found, listed, lexical⟩

end Token

end Scriptlet
