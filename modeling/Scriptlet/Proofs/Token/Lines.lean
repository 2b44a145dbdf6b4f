import Scriptlet.Proofs.Token.Tiling

/-!
Scanning goes line by line. No pattern but white space reaches over a line feed, and what stands
on the lines below changes nothing above them. So the tokens of two texts, one below the other, are
those of the upper text without its end mark and those of the lower one, moved down.
-/

namespace Scriptlet

def Position.down (lines : Nat) (p : Position) : Position := ⟨p.line + lines, p.column⟩

def Span.down (lines : Nat) (s : Span) : Span := ⟨s.start.down lines, s.stop.down lines⟩

def Token.down (lines : Nat) (t : Token) : Token := { t with span := t.span.down lines }

def Fault.down (lines : Nat) (f : Fault) : Fault := { f with position := f.position.down lines }

-- How many lines a text has; the last one need not end in a line feed.
def lineCount (text : List Char) : Nat := 1 + text.count '\n'

namespace Position

variable {p : Position} {lines : Nat}

theorem step_down (c : Char) : (p.down lines).step c = (p.step c).down lines := by
  unfold step down
  split
  · simp [Nat.add_right_comm]
  · rfl

theorem advance_down (cs : List Char) :
    (p.down lines).advance cs = (p.advance cs).down lines := by
  induction cs generalizing p with
  | nil => rfl
  | cons c cs ih => rw [advance_cons, advance_cons, step_down, ih]

theorem step_after (text : List Char) : (after text).step '\n' = first.down (lineCount text) := by
  simp [step, after, down, first, lineCount, Nat.add_comm]

end Position

namespace Pattern

theorem token?_down {p : Pattern} {lexeme : List Char} {span : Span} {lines : Nat} :
    p.token? lexeme (span.down lines) =
      (p.token? lexeme span).map (Option.map (Token.down lines)) := by
  cases p with
  | word =>
    unfold token?
    dsimp only
    split
    · rfl
    · split <;> rfl
  | point negative | integer negative =>
    unfold token?
    dsimp only
    split <;> rfl
  | blanks | comment | text | quote | symbol => rfl

end Pattern

def Reader.down (lines : Nat) (r : Reader) : Reader := { r with position := r.position.down lines }

theorem Reader.advance_down {r : Reader} {lines n : Nat} :
    (r.down lines).advance n = (r.advance n).down lines := by
  unfold advance down
  rw [Position.advance_down]

namespace Token

variable {r : Reader} {lines : Nat}

theorem front_down : front (r.down lines) =
    ((front r).mapError (Fault.down lines)).map
      fun found => (found.1.map (down lines), found.2) := by
  have rest : (r.down lines).rest = r.rest := rfl
  have start : (r.down lines).position = r.position.down lines := rfl
  cases found : Pattern.first? r.rest with
  | none =>
    rw [front_none found, front_none (rest ▸ found)]
    rfl
  | some taken =>
    obtain ⟨p, lexeme⟩ := taken
    have moved : (⟨r.position.down lines, (r.position.down lines).advance lexeme⟩ : Span) =
        Span.down lines ⟨r.position, r.position.advance lexeme⟩ := by
      rw [Position.advance_down]
      rfl
    rw [front_some found, front_some (rest ▸ found), start, moved, Pattern.token?_down]
    cases p.token? lexeme ⟨r.position, r.position.advance lexeme⟩ <;> rfl

theorem scan_step (more : r.rest ≠ []) : scan r =
    (front r).bind fun found => (scan (r.advance found.2)).map (found.1.toList ++ ·) := by
  rw [scan, if_neg more]
  split
  · rename_i failed
    rw [failed]
    rfl
  · rename_i token n found
    rw [found, Except.bind]
    dsimp only
    cases scan (r.advance n) <;> rfl

theorem scan_down : scan (r.down lines) =
    ((scan r).mapError (Fault.down lines)).map (List.map (down lines)) := by
  fun_induction scan r with
  | case1 r ended =>
    have ended : (r.down lines).rest = [] := ended
    rw [scan, if_pos ended]
    rfl
  | case2 r more fault failed =>
    rw [scan_step (r := r.down lines) more, front_down, failed]
    rfl
  | case3 r more token n found fault failed ih =>
    rw [scan_step (r := r.down lines) more, front_down, found]
    simp only [Except.mapError, Except.map, Except.bind, Reader.advance_down, ih, failed]
  | case4 r more token n found tokens scanned ih =>
    rw [scan_step (r := r.down lines) more, front_down, found]
    simp only [Except.mapError, Except.map, Except.bind, Reader.advance_down, ih, scanned]
    cases token <;> rfl

end Token

namespace Pattern

variable {xs ys rest : List Char}

-- No word, number or symbol goes on with this text: it is empty, or starts with a character that
-- none of them has in it.
def Stops (rest : List Char) : Prop :=
  ∀ c ∈ rest.head?, isWordChar c = false ∧ c ≠ '.' ∧ ∀ row ∈ symbols, c ∉ row.2

theorem Stops.line : Stops ('\n' :: ys) := by
  intro c first
  cases Option.some.inj first
  decide

theorem Stops.digit (stops : Stops rest) : ∀ c ∈ rest.head?, Integer.isDigit c = false := by
  intro c first
  have word := (stops c first).1
  simp only [isWordChar, Bool.or_eq_false_iff] at word
  exact word.2

theorem takeWhile_stop {p : Char → Bool} (other : ∀ c ∈ rest.head?, p c = false) :
    (xs ++ rest).takeWhile p = xs.takeWhile p := by
  have nothing : rest.takeWhile p = [] := by
    cases rest with
    | nil => rfl
    | cons c rest => rw [List.takeWhile_cons, other c rfl, if_neg Bool.false_ne_true]
  rw [List.takeWhile_append, nothing, List.append_nil]
  split
  · rename_i whole
    exact ((List.takeWhile_prefix p).eq_of_length whole).symm
  · rfl

theorem run?_stop {p : Char → Bool} (other : ∀ c ∈ rest.head?, p c = false) :
    run? p (xs ++ rest) = run? p xs := by
  rw [run?, run?, takeWhile_stop other]

theorem pointMatch?_stop (stops : Stops rest) : pointMatch? (xs ++ rest) = pointMatch? xs := by
  unfold pointMatch?
  rw [run?_stop stops.digit]
  cases found : run? Integer.isDigit xs with
  | none => rfl
  | some whole =>
    obtain ⟨-, behind, rfl⟩ := run?_takes found
    simp only [Option.bind_some, List.append_assoc, List.drop_left]
    cases behind with
    | nil =>
      cases rest with
      | nil => rfl
      | cons c rest => simp [(stops c rfl).2.1]
    | cons c behind =>
      by_cases point : c = '.'
      · subst point
        simp only [List.cons_append, run?_stop stops.digit]
      · simp [point]

theorem negated?_stop {inner : List Char → Option (List Char)} (stops : Stops rest)
    (same : ∀ {xs}, inner (xs ++ rest) = inner xs) :
    negated? inner (xs ++ rest) = negated? inner xs := by
  cases xs with
  | nil =>
    cases rest with
    | nil => rfl
    | cons c rest =>
      have sign : c ≠ '~' := by
        rintro rfl
        exact absurd (stops '~' rfl) (by decide)
      simp [negated?, sign]
  | cons c xs =>
    by_cases sign : c = '~'
    · subst sign
      simp only [List.cons_append, negated?, same]
    · simp [negated?, sign]

theorem symbol_stop {kind : TokenKind} {spelling value : List Char}
    (other : ∀ c ∈ rest.head?, c ∉ spelling) :
    (Pattern.symbol spelling kind value).match? (xs ++ rest) =
      (Pattern.symbol spelling kind value).match? xs := by
  have same : spelling.isPrefixOf (xs ++ rest) = spelling.isPrefixOf xs := by
    rw [Bool.eq_iff_iff, List.isPrefixOf_iff_prefix, List.isPrefixOf_iff_prefix]
    refine ⟨fun starts => ?_, fun starts => starts.trans (List.prefix_append ..)⟩
    cases rest with
    | nil => simpa using starts
    | cons c rest =>
      have upper : xs ++ [c] <+: xs ++ c :: rest := ⟨rest, by simp⟩
      rcases List.prefix_or_prefix_of_prefix starts upper with inside | beyond
      · rcases List.prefix_concat_iff.1 inside with whole | inside
        · exact absurd (by simp [whole]) (other c rfl)
        · exact inside
      · exact absurd (beyond.subset (by simp)) (other c rfl)
  simp only [match?, same]

-- Whether the pattern is the one of a word, a number or a symbol.
def isSolid : Pattern → Bool
  | .word | .point _ | .integer _ | .symbol .. => true
  | .blanks | .comment | .text | .quote => false

theorem match?_stop {p : Pattern} (member : p ∈ table) (solid : p.isSolid = true)
    (stops : Stops rest) : p.match? (xs ++ rest) = p.match? xs := by
  cases p with
  | word =>
    have other : ∀ c ∈ rest.head?, isWordChar c = false := fun c first => (stops c first).1
    cases xs with
    | nil =>
      cases rest with
      | nil => rfl
      | cons c rest =>
        have start : isWordStart c = false := (Bool.or_eq_false_iff.1 (other c rfl)).1
        simp [match?, start]
    | cons c xs => simp only [List.cons_append, match?, takeWhile_stop other]
  | point negative =>
    cases negative with
    | true => exact negated?_stop stops (pointMatch?_stop stops)
    | false => exact pointMatch?_stop stops
  | integer negative =>
    cases negative with
    | true => exact negated?_stop stops (run?_stop stops.digit)
    | false => exact run?_stop stops.digit
  | blanks | comment | text | quote => cases solid
  | symbol spelling kind value =>
    obtain ⟨-, listed⟩ := symbol_listed member
    exact symbol_stop fun c first => (stops c first).2.2 _ listed

-- A backslash at the end of a line escapes nothing, as at the end of the text.
theorem textRest?_line : textRest? (xs ++ '\n' :: ys) = textRest? xs := by
  fun_induction textRest? xs with
  | case1 => simp [textRest?]
  | case2 rest => simp [textRest?]
  | case3 cs => simp [textRest?]
  | case4 c cs other ih => simp [textRest?, other, ih]
  | case5 c cs quote pair stops =>
    rcases stops with rfl | rfl
    · simp [textRest?]
    · cases cs with
      | nil => simp [textRest?]
      | cons d cs => exact absurd rfl (pair d cs rfl)
  | case6 c cs quote pair other ih =>
    obtain ⟨line, backslash⟩ := not_or.1 other
    simp [textRest?, line, backslash, ih]

theorem match?_line {p : Pattern} (member : p ∈ table) (visible : p ≠ .blanks) :
    p.match? (xs ++ '\n' :: ys) = p.match? xs := by
  cases p with
  | word | point | integer | symbol => exact match?_stop member rfl .line
  | blanks => exact absurd rfl visible
  | comment =>
    have line : ∀ c ∈ ('\n' :: ys).head?, (c != '\n') = false := by simp
    cases xs with
    | nil => rfl
    | cons c rest =>
      by_cases starts : c = '#'
      · subst starts
        simp only [List.cons_append, match?, takeWhile_stop line]
      · simp [match?, starts]
  | text =>
    cases xs with
    | nil => rfl
    | cons c rest =>
      by_cases starts : c = '"'
      · subst starts
        simp only [List.cons_append, match?, textRest?_line]
      · simp [match?, starts]
  | quote =>
    cases xs with
    | nil => rfl
    | cons c rest =>
      by_cases starts : c = '"'
      · subst starts
        rfl
      · simp [match?, starts]

theorem blanks_line (visible : ∃ c ∈ xs, Text.isBlank c = false) :
    Pattern.blanks.match? (xs ++ '\n' :: ys) = Pattern.blanks.match? xs := by
  have stops : (xs.takeWhile Text.isBlank).length ≠ xs.length := by
    intro whole
    obtain ⟨c, member, shown⟩ := visible
    have all := List.all_takeWhile (p := Text.isBlank) (l := xs)
    rw [(List.takeWhile_prefix _).eq_of_length whole] at all
    simp [List.all_eq_true.1 all c member] at shown
  simp only [match?, run?, List.takeWhile_append, if_neg stops]

theorem first?_congr (each : ∀ p ∈ table, p.match? xs = p.match? ys) : first? xs = first? ys := by
  unfold first?
  generalize table = patterns at each
  induction patterns with
  | nil => rfl
  | cons p rest ih =>
    rw [List.forall_mem_cons] at each
    rw [List.findSome?_cons, List.findSome?_cons, each.1, ih each.2]

theorem first?_line (visible : ∃ c ∈ xs, Text.isBlank c = false) :
    first? (xs ++ '\n' :: ys) = first? xs := by
  apply first?_congr
  intro p member
  by_cases blank : p = .blanks
  · rw [blank, blanks_line visible]
  · exact match?_line member blank

theorem blank_ne {c d : Char} (blank : Text.isBlank c = true) (low : 0x21 ≤ d.toNat)
    (high : d.toNat ≤ 0x7e) : c ≠ d := by
  simp only [Text.isBlank, Text.blankRanges, List.any_cons, List.any_nil, Bool.or_eq_true,
    Bool.and_eq_true, decide_eq_true_eq, Bool.or_false] at blank
  rintro rfl
  omega

theorem blank_apart {c : Char} (blank : Text.isBlank c = true) : isWordChar c = false := by
  have apart : ∀ low high : Char, 0x21 ≤ low.toNat → high.toNat ≤ 0x7e →
      (decide (low ≤ c) && decide (c ≤ high)) = false := by
    intro low high visible ascii
    rw [Bool.and_eq_false_iff, decide_eq_false_iff_not, decide_eq_false_iff_not,
      ← not_and_or]
    rintro ⟨above, below⟩
    have above : low.toNat ≤ c.toNat := above
    have below : c.toNat ≤ high.toNat := below
    exact blank_ne blank (by omega) (by omega) rfl
  simp only [isWordChar, isWordStart, isLetter, Integer.isDigit, Bool.or_eq_false_iff,
    beq_eq_false_iff_ne]
  exact ⟨⟨⟨apart 'a' 'z' (by decide) (by decide), apart 'A' 'Z' (by decide) (by decide)⟩,
    blank_ne blank (by decide) (by decide)⟩, apart '0' '9' (by decide) (by decide)⟩

theorem Stops.blank {c : Char} (blank : Text.isBlank c = true) : Stops (c :: ys) := by
  have visible : (symbols.all fun row => row.2.all fun d =>
      decide (0x21 ≤ d.toNat ∧ d.toNat ≤ 0x7e)) = true := by decide
  intro d first
  cases Option.some.inj first
  refine ⟨blank_apart blank, blank_ne blank (by decide) (by decide), ?_⟩
  intro row listed inside
  have shown := List.all_eq_true.1 (List.all_eq_true.1 visible row listed) c inside
  obtain ⟨low, high⟩ := of_decide_eq_true shown
  exact blank_ne blank low high rfl

theorem Stops.none {p : Pattern} (stops : Stops rest) (member : p ∈ table)
    (solid : p.isSolid = true) : p.match? rest = none := by
  have filled : ∀ p ∈ table, p.match? [] = Option.none := by decide
  have same : p.match? ([] ++ rest) = p.match? [] := match?_stop member solid stops
  exact same.trans (filled p member)

theorem first?_of {before after : List Pattern} {p : Pattern} {lexeme : List Char}
    (split : table = before ++ p :: after) (others : ∀ q ∈ before, q.match? xs = none)
    (found : p.match? xs = some lexeme) : first? xs = some (p, lexeme) := by
  have nothing : (before.findSome? fun q => (q.match? xs).map fun lexeme => (q, lexeme)) = none := by
    rw [List.findSome?_eq_none_iff]
    intro q listed
    rw [others q listed, Option.map_none]
  rw [first?, split, List.findSome?_append, nothing, Option.none_or, List.findSome?_cons, found]
  rfl

theorem first?_blank {c : Char} (blank : Text.isBlank c = true) :
    first? (c :: xs) = some (.blanks, c :: xs.takeWhile Text.isBlank) := by
  have split : table = [word, point true, point false, integer true, integer false] ++
      blanks :: table.drop 6 := rfl
  refine first?_of split ?_ (by simp [match?, run?, blank])
  intro p early
  have solid : ∀ p ∈ [Pattern.word, .point true, .point false, .integer true, .integer false],
      p.isSolid = true := by decide
  exact (Stops.blank blank).none (split ▸ List.mem_append_left _ early) (solid p early)

end Pattern

theorem Reader.advance_append {position : Position} {xs ys : List Char} {n : Nat}
    (within : n ≤ xs.length) : (Reader.mk (xs ++ ys) position).advance n =
      ⟨xs.drop n ++ ys, position.advance (xs.take n)⟩ := by
  rw [advance]
  dsimp only
  rw [List.drop_append_of_le_length within, List.take_append_of_le_length within]

namespace Token

variable {position : Position} {xs ys : List Char}

theorem scan_run {c : Char} (blank : Text.isBlank c = true) : scan ⟨c :: xs, position⟩ =
    scan ⟨xs.dropWhile Text.isBlank, (position.step c).advance (xs.takeWhile Text.isBlank)⟩ := by
  have found : front ⟨c :: xs, position⟩ =
      .ok (none, (c :: xs.takeWhile Text.isBlank).length) := by
    rw [front_some (Pattern.first?_blank blank)]
    rfl
  have left : (Reader.mk (c :: xs) position).advance (c :: xs.takeWhile Text.isBlank).length =
      ⟨xs.dropWhile Text.isBlank, (position.step c).advance (xs.takeWhile Text.isBlank)⟩ := by
    have split : c :: xs = (c :: xs.takeWhile Text.isBlank) ++ xs.dropWhile Text.isBlank := by simp
    rw [Reader.advance]
    dsimp only
    rw [split, List.drop_left, List.take_left, Position.advance_cons]
  rw [scan_step (by simp), found, Except.bind]
  dsimp only
  rw [left]
  cases scan _ <;> rfl

-- A blank character in front only moves the rest, be it a run of its own or part of a longer one.
theorem scan_blank {c : Char} (blank : Text.isBlank c = true) :
    scan ⟨c :: xs, position⟩ = scan ⟨xs, position.step c⟩ := by
  rw [scan_run blank]
  cases xs with
  | nil => rfl
  | cons d xs =>
    cases next : Text.isBlank d with
    | true => rw [scan_run next]; simp [next]
    | false => simp [next]

theorem scan_blanks (blank : ∀ c ∈ xs, Text.isBlank c = true) :
    scan ⟨xs ++ ys, position⟩ = scan ⟨ys, position.advance xs⟩ := by
  induction xs generalizing position with
  | nil => rfl
  | cons c xs ih =>
    rw [List.forall_mem_cons] at blank
    rw [List.cons_append, scan_blank blank.1, ih blank.2, Position.advance_cons]

theorem scan_blank_text (blank : ∀ c ∈ xs, Text.isBlank c = true) :
    scan ⟨xs, position⟩ = .ok [eof (position.advance xs)] := by
  have ended : scan ⟨xs ++ [], position⟩ = scan ⟨[], position.advance xs⟩ := scan_blanks blank
  rw [List.append_nil] at ended
  rw [ended, scan, if_pos rfl]

theorem front_line (visible : ∃ c ∈ xs, Text.isBlank c = false) :
    front ⟨xs ++ '\n' :: ys, position⟩ = front ⟨xs, position⟩ := by
  have same : Pattern.first? (xs ++ '\n' :: ys) = Pattern.first? xs :=
    Pattern.first?_line visible
  cases found : Pattern.first? xs with
  | none =>
    obtain ⟨c, member, -⟩ := visible
    rw [front_none (same.trans found), front_none found]
    cases xs with
    | nil => cases member
    | cons c rest => rfl
  | some taken =>
    obtain ⟨p, lexeme⟩ := taken
    rw [front_some (same.trans found), front_some found]

-- By the length of the upper text: a step takes a token from it, or it has only white space left.
theorem scan_above : scan ⟨xs ++ '\n' :: ys, position⟩ =
    (scan ⟨xs, position⟩).bind fun above =>
      (scan ⟨ys, (position.advance xs).step '\n'⟩).map (above.dropLast ++ ·) := by
  induction length : xs.length using Nat.strongRecOn generalizing xs position with
  | ind size ih =>
    by_cases visible : ∃ c ∈ xs, Text.isBlank c = false
    · have more : xs ≠ [] := by
        obtain ⟨c, member, -⟩ := visible
        exact List.ne_nil_of_mem member
      rw [scan_step (by simp), front_line visible, scan_step (r := ⟨xs, position⟩) more]
      cases found : front ⟨xs, position⟩ with
      | error fault => rfl
      | ok result =>
        obtain ⟨token, n⟩ := result
        obtain ⟨positive, within⟩ := front_length found
        have ends : (position.advance (xs.take n)).advance (xs.drop n) = position.advance xs := by
          rw [← Position.advance_append, List.take_append_drop]
        have shorter : (xs.drop n).length < size := by
          rw [List.length_drop, ← length]
          exact Nat.sub_lt_of_pos_le positive within
        have alone : (Reader.mk xs position).advance n =
            ⟨xs.drop n, position.advance (xs.take n)⟩ := rfl
        simp only [Except.bind, Reader.advance_append within, alone, ih _ shorter rfl, ends]
        cases scanned : scan ⟨xs.drop n, position.advance (xs.take n)⟩ with
        | error fault => rfl
        | ok tokens =>
          obtain ⟨body, stop, rfl, -⟩ := scan_ended scanned
          cases scan ⟨ys, (position.advance xs).step '\n'⟩ with
          | error fault => rfl
          | ok below => simp [Except.map, ← List.append_assoc]
    · have blank : ∀ c ∈ xs, Text.isBlank c = true := by simpa using visible
      rw [scan_blanks blank, scan_blank (by decide), scan_blank_text blank]
      cases scan ⟨ys, (position.advance xs).step '\n'⟩ <;> rfl

-- The tokens of two texts, one below the other: those of the upper one without its end mark, and
-- those of the lower one moved down. A fault of the upper text comes first.
theorem ofSource_lines (upper lower : String) :
    ofSource (upper ++ "\n" ++ lower) = do
      let above ← ofSource upper
      let below ← (ofSource lower).mapError (Fault.down (lineCount upper.toList))
      return above.dropLast ++ below.map (down (lineCount upper.toList)) := by
  have joined : (upper ++ "\n" ++ lower).toList = upper.toList ++ '\n' :: lower.toList := by simp
  have start : (Position.first.advance upper.toList).step '\n' =
      Position.first.down (lineCount upper.toList) := by
    rw [Position.advance_first, Position.step_after]
  have moved := @scan_down (.ofString lower) (lineCount upper.toList)
  unfold ofSource
  unfold Reader.down Reader.ofString at *
  rw [joined, scan_above, start, moved]
  cases scan ⟨upper.toList, .first⟩ with
  | error fault => rfl
  | ok above => cases scan ⟨lower.toList, .first⟩ <;> rfl

end Token

end Scriptlet
