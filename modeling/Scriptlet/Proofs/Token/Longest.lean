import Scriptlet.Proofs.Token.Offence
import Scriptlet.Proofs.Token.Written

/-!
The first pattern that fits is the one that takes most. Two patterns of the table can only fit the
same text when their lexemes start alike, and then the one that stands before the other takes more.
So a scan takes the longest lexeme at each place: a start of the text that some pattern accepts,
such that no pattern accepts a longer one.
-/

namespace Scriptlet

namespace Pattern

variable {p q : Pattern} {cs lexeme other rest left : List Char}

-- The classes that words, numbers and white space start with; each other character is its own.
inductive Lead where
  | letter
  | digit
  | blank
  | mark (c : Char)
deriving DecidableEq

def Lead.ofChar (c : Char) : Lead :=
  if isWordStart c then .letter
  else if Integer.isDigit c then .digit
  else if Text.isBlank c then .blank
  else .mark c

def lead? : Pattern → Option Lead
  | .word => some .letter
  | .point true | .integer true => some (.mark '~')
  | .point false | .integer false => some .digit
  | .blanks => some .blank
  | .comment => some (.mark '#')
  | .text | .quote => some (.mark '"')
  | .symbol spelling _ _ => spelling.head?.map .ofChar

theorem Lead.ofChar_digit {c : Char} (digit : Integer.isDigit c = true) : ofChar c = .digit := by
  have word : Pattern.word.match? [c] = none := (digit_apart digit).1
  have other : isWordStart c = false := by simpa [match?] using word
  simp [ofChar, other, digit]

theorem Lead.ofChar_blank {c : Char} (blank : Text.isBlank c = true) : ofChar c = .blank := by
  obtain ⟨word, digit⟩ := Bool.or_eq_false_iff.1 (blank_apart blank)
  simp [ofChar, word, digit, blank]

theorem lead_digits {digits : List Char} (digital : Integer.AreDigits digits) :
    (digits ++ rest).head?.map Lead.ofChar = some .digit := by
  obtain ⟨c, cs, rfl⟩ := List.exists_cons_of_ne_nil digital.1
  exact congrArg some (Lead.ofChar_digit (digital.2 c List.mem_cons_self))

theorem Takes.lead (member : p ∈ table) (takes : p.Takes lexeme rest) :
    (lexeme ++ rest).head?.map Lead.ofChar = p.lead? := by
  cases takes with
  | word starts all ends => exact congrArg some (if_pos starts)
  | @point negative whole fraction rest digital fractional ends =>
    cases negative with
    | true => rfl
    | false =>
      have first : (whole ++ '.' :: (fraction ++ rest)).head?.map Lead.ofChar = some .digit :=
        lead_digits digital
      rw [← List.cons_append, ← List.append_assoc] at first
      exact first
  | @integer negative digits rest digital ends =>
    cases negative with
    | true => rfl
    | false => exact lead_digits digital
  | blanks filled all ends =>
    obtain ⟨c, run, rfl⟩ := List.exists_cons_of_ne_nil filled
    exact congrArg some (Lead.ofChar_blank (all c List.mem_cons_self))
  | comment | text | quote => rfl
  | @symbol kind spelling value rest =>
    have fits := (@Takes.symbol kind lexeme value rest).match?_eq
    have filled : lexeme ≠ [] := (match?_takes member fits).1
    obtain ⟨c, cs, rfl⟩ := List.exists_cons_of_ne_nil filled
    rfl

-- Where both patterns fit, the first takes more than the second, as far as their forms tell.
def outranks : Pattern → Pattern → Bool
  | .point negative, .integer negative' => negative == negative'
  | .point _, .symbol spelling _ _ | .integer true, .symbol spelling _ _ => spelling.length == 1
  | .text, .quote => true
  | .symbol spelling _ _, .symbol other _ _ => !spelling.isPrefixOf other
  | _, _ => false

-- The order of the table: of two patterns with lexemes that start alike, the first outranks the
-- second.
theorem table_ordered :
    table.Pairwise fun p q => p.lead? = q.lead? → p.outranks q = true := by
  decide +kernel

theorem Takes.point_longer {negative : Bool} (point : Takes (.point negative) lexeme rest)
    (integer : Takes (.integer negative) other left) (same : lexeme ++ rest = other ++ left) :
    other.length < lexeme.length := by
  cases point with
  | @point _ whole fraction _ digital fractional ends =>
    cases integer with
    | @integer _ digits _ digital' ends' =>
      have same : whole ++ '.' :: (fraction ++ rest) = digits ++ left := by simpa using same
      -- Both have all the digits up to the point.
      have equal : whole = digits := by
        rw [← takeWhile_run digital.2 (point_ends _), same, takeWhile_run digital'.2 ends']
      simp [equal]

theorem prefix_longer {spelling : List Char} (apart : ¬ spelling <+: other)
    (same : spelling ++ rest = other ++ left) : other.length < spelling.length := by
  have first : spelling <+: spelling ++ rest := List.prefix_append ..
  have second : other <+: spelling ++ rest := same ▸ List.prefix_append ..
  rcases List.prefix_or_prefix_of_prefix first second with longer | shorter
  · exact absurd longer apart
  · refine Nat.lt_of_le_of_ne shorter.length_le fun equal => apart ?_
    exact shorter.eq_of_length equal ▸ List.prefix_rfl

theorem Takes.longer (outranks : p.outranks q = true) (takes : p.Takes lexeme rest)
    (takes' : q.Takes other left) (same : lexeme ++ rest = other ++ left) :
    other.length < lexeme.length := by
  unfold Pattern.outranks at outranks
  split at outranks
  · cases eq_of_beq outranks
    exact takes.point_longer takes' same
  -- A number has a digit behind its sign, and the symbol is one character.
  · cases takes'
    cases takes with
    | point digital fractional ends =>
      rw [eq_of_beq outranks]
      simp only [List.length_append, List.length_cons]
      have filled := List.length_pos_iff.2 digital.1
      omega
  · cases takes'
    cases takes with
    | integer digital ends =>
      rw [eq_of_beq outranks, List.length_append]
      exact Nat.lt_add_of_pos_right (List.length_pos_iff.2 digital.1)
  -- A text literal has a second quote.
  · cases takes
    cases takes'
    simp
  · cases takes
    cases takes'
    refine prefix_longer (fun starts => ?_) same
    simp [List.isPrefixOf_iff_prefix.2 starts] at outranks
  · cases outranks

theorem table_longer : table.Pairwise fun p q => ∀ cs lexeme other,
    p.match? cs = some lexeme → q.match? cs = some other → other.length < lexeme.length := by
  refine table_ordered.imp_of_mem fun {p q} member member' ordered cs lexeme other fits fits' => ?_
  obtain ⟨rest, rfl, takes⟩ := takes_of_match? fits
  obtain ⟨left, same, takes'⟩ := takes_of_match? fits'
  have alike : p.lead? = q.lead? := by rw [← takes.lead member, same, takes'.lead member']
  exact takes.longer (ordered alike) takes' same

theorem first?_longer (found : first? cs = some (p, lexeme)) (member : q ∈ table) (apart : q ≠ p)
    (fits : q.match? cs = some other) : other.length < lexeme.length := by
  obtain ⟨before, after, split, others, taken⟩ := first?_some found
  rw [split] at member
  rcases List.mem_append.1 member with early | late
  · rw [others q early] at fits
    cases fits
  · have listed : q ∈ after := (List.mem_cons.1 late).resolve_left apart
    have ordered := table_longer
    rw [split, List.pairwise_append, List.pairwise_cons] at ordered
    exact ordered.2.1.1 q listed cs lexeme other taken fits

-- The pattern takes the text whole.
def Accepts (p : Pattern) (text : List Char) : Prop := p.Takes text []

-- Of all starts of the text that some pattern accepts, the lexeme is the longest.
structure Longest (p : Pattern) (lexeme rest : List Char) : Prop where
  listed : p ∈ table
  accepted : p.Accepts lexeme
  longest : ∀ q ∈ table, ∀ other, q.Accepts other → other <+: lexeme ++ rest →
    other.length ≤ lexeme.length

theorem accepts_of_match? (fits : p.match? cs = some lexeme) : p.Accepts lexeme := by
  obtain ⟨rest, rfl, takes⟩ := takes_of_match? fits
  have ended : p.Takes lexeme ([] ++ rest) := takes
  exact ended.cut

theorem Accepts.match?_le (accepts : p.Accepts other) (starts : other <+: cs) :
    ∃ lexeme, p.match? cs = some lexeme ∧ other <+: lexeme := by
  obtain ⟨rest, rfl⟩ := starts
  obtain ⟨more, left, split, longer⟩ := accepts.lengthen rest
  have fits := longer.match?_eq
  rw [List.append_assoc, ← split, List.nil_append] at fits
  exact ⟨other ++ more, fits, List.prefix_append ..⟩

theorem first?_fits (found : first? cs = some (p, lexeme)) :
    p ∈ table ∧ p.match? cs = some lexeme := by
  obtain ⟨before, after, split, -, fits⟩ := first?_some found
  exact ⟨by simp [split], fits⟩

theorem first?_longest (found : first? (lexeme ++ rest) = some (p, lexeme)) :
    Longest p lexeme rest := by
  obtain ⟨listed, fits⟩ := first?_fits found
  refine ⟨listed, accepts_of_match? fits, ?_⟩
  intro q member other accepts starts
  obtain ⟨taken, fits', shorter⟩ := accepts.match?_le starts
  by_cases same : q = p
  · subst same
    cases fits.symm.trans fits'
    exact shorter.length_le
  · exact Nat.le_trans shorter.length_le (Nat.le_of_lt (first?_longer found member same fits'))

theorem first?_none_iff :
    first? cs = none ↔ ∀ q ∈ table, ∀ other, q.Accepts other → ¬ other <+: cs := by
  unfold first?
  rw [List.findSome?_eq_none_iff]
  refine forall₂_congr fun q member => ?_
  rw [Option.map_eq_none_iff]
  constructor
  · intro none other accepts starts
    obtain ⟨lexeme, fits, -⟩ := accepts.match?_le starts
    rw [none] at fits
    cases fits
  · intro none
    cases fits : q.match? cs with
    | none => rfl
    | some lexeme =>
      have starts : lexeme <+: cs := (match?_takes member fits).2
      exact absurd starts (none lexeme (accepts_of_match? fits))

theorem exists_first? (member : q ∈ table) (fits : q.match? cs = some other) :
    ∃ p lexeme, first? cs = some (p, lexeme) := by
  cases found : first? cs with
  | none =>
    have none := first?_none_iff.1 found q member other (accepts_of_match? fits)
    exact absurd (match?_takes member fits).2 none
  | some taken => exact ⟨taken.1, taken.2, rfl⟩

-- No two patterns accept the longest lexeme, so the pattern that does is the first that fits.
theorem Longest.first?_eq (longest : Longest p lexeme rest) :
    first? (lexeme ++ rest) = some (p, lexeme) := by
  obtain ⟨listed, accepted, longest⟩ := longest
  have fits : p.match? (lexeme ++ rest) = some lexeme := by
    obtain ⟨taken, fits, longer⟩ := accepted.match?_le (List.prefix_append lexeme rest)
    have bound : taken.length ≤ lexeme.length :=
      longest p listed taken (accepts_of_match? fits) (match?_takes listed fits).2
    exact fits.trans (congrArg some (longer.eq_of_length_le bound).symm)
  obtain ⟨q, first, found⟩ := exists_first? listed fits
  obtain ⟨member, fits'⟩ := first?_fits found
  have same : p = q := by
    by_contra apart
    have bound : first.length ≤ lexeme.length :=
      longest q member first (accepts_of_match? fits') (match?_takes member fits').2
    have longer : lexeme.length < first.length := first?_longer found listed apart fits
    omega
  subst same
  cases fits.symm.trans fits'
  exact found

theorem first?_eq_iff : first? (lexeme ++ rest) = some (p, lexeme) ↔ Longest p lexeme rest :=
  ⟨first?_longest, Longest.first?_eq⟩

end Pattern

theorem Reader.advance_lexeme {lexeme rest : List Char} {position : Position} :
    (Reader.mk (lexeme ++ rest) position).advance lexeme.length =
      ⟨rest, position.advance lexeme⟩ := by
  rw [advance]
  dsimp only
  rw [List.drop_left, List.take_left]

namespace Token

open Pattern

variable {p : Pattern} {lexeme rest cs : List Char} {position : Position}

-- What scanning by longest lexemes gives for a text that starts at the position. The scan goes on
-- right behind each lexeme of which no fault comes, and ends where the text does.
inductive Munches : Position → List Char → Except Fault (List Token) → Prop where
  | ended {position : Position} : Munches position [] (.ok [eof position])
  | unknown {position : Position} {c : Char} {rest : List Char}
      (none : ∀ q ∈ table, ∀ other, q.Accepts other → ¬ other <+: c :: rest) :
      Munches position (c :: rest) (.error ⟨.unrecognisedToken (String.ofList [c]), position⟩)
  | refused {position : Position} {p : Pattern} {lexeme rest : List Char} {cause : FaultCause}
      (longest : Longest p lexeme rest)
      (refused : p.token? lexeme ⟨position, position.advance lexeme⟩ = .error cause) :
      Munches position (lexeme ++ rest) (.error ⟨cause, position⟩)
  | taken {position : Position} {p : Pattern} {lexeme rest : List Char} {token : Option Token}
      {result : Except Fault (List Token)} (longest : Longest p lexeme rest)
      (made : p.token? lexeme ⟨position, position.advance lexeme⟩ = .ok token)
      (onward : Munches (position.advance lexeme) rest result) :
      Munches position (lexeme ++ rest) (result.map (token.toList ++ ·))

theorem scan_unknown {c : Char} (none : first? (c :: rest) = none) : scan ⟨c :: rest, position⟩ =
    .error ⟨.unrecognisedToken (String.ofList [c]), position⟩ := by
  rw [scan_step (by simp), front_none none]
  rfl

theorem scan_lexeme (found : first? (lexeme ++ rest) = some (p, lexeme)) :
    scan ⟨lexeme ++ rest, position⟩ =
      ((p.token? lexeme ⟨position, position.advance lexeme⟩).mapError fun cause =>
        Fault.mk cause position).bind fun token =>
          (scan ⟨rest, position.advance lexeme⟩).map (token.toList ++ ·) := by
  have more : lexeme ++ rest ≠ [] := List.append_ne_nil_of_left_ne_nil (first?_takes found).1 _
  rw [scan_step more, front_some found]
  cases p.token? lexeme ⟨position, position.advance lexeme⟩ with
  | error cause => rfl
  | ok token =>
    simp only [Except.mapError, Except.map, Except.bind]
    rw [Reader.advance_lexeme]

theorem Munches.scan_eq {result : Except Fault (List Token)}
    (munches : Munches position cs result) : scan ⟨cs, position⟩ = result := by
  induction munches with
  | ended => rw [scan, if_pos rfl]
  | unknown none => exact scan_unknown (first?_none_iff.2 none)
  | refused longest refused =>
    rw [scan_lexeme (first?_eq_iff.2 longest), refused]
    rfl
  | taken longest made onward ih =>
    rw [scan_lexeme (first?_eq_iff.2 longest), made, ← ih]
    rfl

-- By the length of the text: what is left behind a lexeme is shorter.
theorem scan_munches : Munches position cs (scan ⟨cs, position⟩) := by
  induction length : cs.length using Nat.strongRecOn generalizing cs position with
  | ind size ih =>
    cases cs with
    | nil =>
      rw [scan, if_pos rfl]
      exact .ended
    | cons c behind =>
      cases found : first? (c :: behind) with
      | none =>
        rw [scan_unknown found]
        exact .unknown (first?_none_iff.1 found)
      | some taken =>
        obtain ⟨p, lexeme⟩ := taken
        obtain ⟨filled, rest, split⟩ := first?_takes found
        rw [← split] at found length ⊢
        have longest := first?_eq_iff.1 found
        rw [scan_lexeme found]
        cases made : p.token? lexeme ⟨position, position.advance lexeme⟩ with
        | error cause => exact .refused longest made
        | ok token =>
          have shorter : rest.length < size := by
            have positive := List.length_pos_iff.2 filled
            rw [List.length_append] at length
            omega
          exact .taken longest made (ih _ shorter rfl)

theorem scan_eq_iff {result : Except Fault (List Token)} :
    scan ⟨cs, position⟩ = result ↔ Munches position cs result :=
  ⟨fun scanned => scanned ▸ scan_munches, Munches.scan_eq⟩

-- A step of a scan. The first pattern of the table that fits takes the lexeme, and each other one
-- that fits takes less. What the pattern makes of the lexeme is a fault, or the reader is right
-- behind the lexeme afterwards.
structure Steps (r : Reader) (p : Pattern) (lexeme rest : List Char) : Prop where
  split : r.rest = lexeme ++ rest
  first : ∃ before after : List Pattern, table = before ++ p :: after ∧
    ∀ q ∈ before, q.match? r.rest = none
  fits : p.match? r.rest = some lexeme
  longest : ∀ q ∈ table, q ≠ p → ∀ other : List Char, q.match? r.rest = some other →
    other.length < lexeme.length
  consumed :
    (∃ cause : FaultCause, p.token? lexeme ⟨r.position, r.position.advance lexeme⟩ = .error cause ∧
      front r = .error ⟨cause, r.position⟩) ∨
    ∃ token : Option Token, p.token? lexeme ⟨r.position, r.position.advance lexeme⟩ = .ok token ∧
      front r = .ok (token, lexeme.length) ∧
      r.advance lexeme.length = ⟨rest, r.position.advance lexeme⟩

theorem exists_steps {r : Reader} {q : Pattern} {taken : List Char} (member : q ∈ table)
    (fits : q.match? r.rest = some taken) : ∃ p lexeme rest, Steps r p lexeme rest := by
  obtain ⟨cs, position⟩ := r
  obtain ⟨p, lexeme, found⟩ := exists_first? member fits
  obtain ⟨before, after, order, others, fits⟩ := first?_some found
  obtain ⟨-, rest, rfl⟩ := first?_takes found
  refine ⟨p, lexeme, rest, rfl, ⟨before, after, order, others⟩, fits, ?_, ?_⟩
  · intro q member apart other fits
    exact first?_longer found member apart fits
  · rw [front_some found]
    cases p.token? lexeme ⟨position, position.advance lexeme⟩ with
    | error cause => exact .inl ⟨cause, rfl, rfl⟩
    | ok token => exact .inr ⟨token, rfl, rfl, Reader.advance_lexeme⟩

-- Wherever a pattern fits, the first one that does takes most and the step goes right behind that.
-- So the scan of a text gives what scanning by longest lexemes does, and nothing else.
theorem ofSource_munches :
    (∀ (r : Reader) (q : Pattern) (taken : List Char), q ∈ table → q.match? r.rest = some taken →
      ∃ p lexeme rest, Steps r p lexeme rest) ∧
    ∀ (source : String) (result : Except Fault (List Token)),
      ofSource source = result ↔ Munches .first source.toList result :=
  ⟨fun _ _ _ member fits => exists_steps member fits, fun _ _ => scan_eq_iff⟩

-- Nothing stands between the lexemes, and most of them have a shorter one in front.
def crowdedSource : String := "~12.5<=~7;x+==\"!\""

theorem crowdedSource_munches :
    (Pattern.symbol ['~'] .tilde ['~']).match? crowdedSource.toList = some ['~'] ∧
    (∃ p lexeme rest, Steps (.ofString crowdedSource) p lexeme rest) ∧
    ∃ tokens, ofSource crowdedSource = .ok tokens ∧
      tokens.map Token.value = ["~12.5", "<=", "~7", ";", "x", "+=", "=", "!", "EOF"] ∧
      Munches .first crowdedSource.toList (.ok tokens) := by
  have fits : (Pattern.symbol ['~'] .tilde ['~']).match? crowdedSource.toList = some ['~'] := by
    decide +kernel
  have found : ((ofSource crowdedSource).toOption.any fun tokens => decide (tokens.map Token.value =
      ["~12.5", "<=", "~7", ";", "x", "+=", "=", "!", "EOF"])) = true := by decide +kernel
  obtain ⟨tokens, scanned, values⟩ := ok_of_any found
  exact ⟨fits, ofSource_munches.1 (.ofString crowdedSource) _ _ (by decide) fits,
    tokens, scanned, of_decide_eq_true values, (ofSource_munches.2 _ _).1 scanned⟩

end Token

end Scriptlet
