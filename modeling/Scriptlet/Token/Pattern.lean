import Scriptlet.Fault
import Scriptlet.Integer
import Scriptlet.Text.Blank
import Scriptlet.Token.Basic

/-!
What a stretch of source can be. `Pattern.table` lists the patterns in the order in which they
are tried, `match?` finds the stretch that a pattern takes from the front of the input, and
`token` says what such a stretch becomes: a token, nothing, or a fault.
-/

namespace Scriptlet

inductive Pattern where
  | word
  | point (negative : Bool)
  | integer (negative : Bool)
  | blanks
  | comment
  | text
  | quote
  | symbol (spelling : List Char) (kind : TokenKind) (value : List Char)
deriving DecidableEq

namespace Pattern

-- What the pattern of a symbol looks for, and the token that its rule makes.
structure SymbolRow where
  spelling : List Char
  kind : TokenKind
  value : List Char

-- Longer spellings stand before the shorter ones that they start with.
def symbolRows : List SymbolRow :=
  [⟨['['], .openBracket, ['[']⟩, ⟨[']'], .closeBracket, [']']⟩, ⟨['\x7b'], .openCurly, ['\x7b']⟩,
   ⟨['\x7d'], .closeCurly, ['\x7d']⟩, ⟨['('], .openParen, ['(']⟩, ⟨[')'], .closeParen, [')']⟩,
   ⟨['=', '='], .equals, ['=', '=']⟩, ⟨['!', '='], .notEquals, ['!', '=']⟩, ⟨['!'], .not, ['!']⟩,
   ⟨['='], .assignment, ['=']⟩, ⟨['<', '='], .lessEquals, ['<', '=']⟩, ⟨['<'], .less, ['<']⟩,
   ⟨['>', '='], .greaterEquals, ['>', '=']⟩, ⟨['>'], .greater, ['>']⟩,
   ⟨['|', '|'], .or, ['|', '|']⟩, ⟨['&', '&'], .and, ['&', '&']⟩, ⟨['~'], .tilde, ['~']⟩,
   ⟨[';'], .semicolon, [';']⟩, ⟨[','], .comma, [',']⟩, ⟨['+', '='], .plusEquals, ['+', '=']⟩,
   ⟨['-', '='], .minusEquals, ['-', '=']⟩, ⟨['*', '='], .starEquals, ['*', '=']⟩,
   ⟨['/', '='], .slashEquals, ['/', '=']⟩, ⟨['%', '='], .percentEquals, ['%', '=']⟩,
   ⟨['+'], .plus, ['+']⟩, ⟨['-'], .dash, ['-']⟩, ⟨['/'], .slash, ['/']⟩, ⟨['*'], .star, ['*']⟩,
   ⟨['%'], .percent, ['%']⟩]

-- The symbols with their kinds.
def symbols : List (TokenKind × List Char) := symbolRows.map fun row => (row.kind, row.value)

def table : List Pattern :=
  [.word, .point true, .point false, .integer true, .integer false, .blanks, .comment, .text,
   .quote] ++ symbolRows.map fun row => .symbol row.spelling row.kind row.value

def isLetter (c : Char) : Bool := ('a' ≤ c && c ≤ 'z') || ('A' ≤ c && c ≤ 'Z')

def isWordStart (c : Char) : Bool := isLetter c || c == '_'

def isWordChar (c : Char) : Bool := isWordStart c || Integer.isDigit c

-- A run of characters of one class, if there is at least one.
def run? (p : Char → Bool) (cs : List Char) : Option (List Char) :=
  match cs.takeWhile p with
  | [] => none
  | taken => some taken

def wholeMatch? (cs : List Char) : Option (List Char) := run? Integer.isDigit cs

-- Digits on both sides of a point.
def pointMatch? (cs : List Char) : Option (List Char) :=
  (run? Integer.isDigit cs).bind fun whole =>
    match cs.drop whole.length with
    | '.' :: rest => (run? Integer.isDigit rest).map fun fraction => whole ++ '.' :: fraction
    | _ => none

-- What follows a tilde, with the tilde.
def negated? (inner : List Char → Option (List Char)) : List Char → Option (List Char)
  | '~' :: cs => (inner cs).map ('~' :: ·)
  | _ => none

-- The rest of a text literal after its opening quote, up to the quote that closes it. A
-- backslash takes the next character with it, and no line feed may occur.
def textRest? : List Char → Option (List Char)
  | [] => none
  | '"' :: _ => some ['"']
  | '\\' :: c :: cs => if c = '\n' then none else (textRest? cs).map ('\\' :: c :: ·)
  | c :: cs => if c = '\n' ∨ c = '\\' then none else (textRest? cs).map (c :: ·)

def match? : Pattern → List Char → Option (List Char)
  | .word, c :: cs => if isWordStart c then some (c :: cs.takeWhile isWordChar) else none
  | .point true, cs => negated? pointMatch? cs
  | .point false, cs => pointMatch? cs
  | .integer true, cs => negated? wholeMatch? cs
  | .integer false, cs => wholeMatch? cs
  | .blanks, cs => run? Text.isBlank cs
  | .comment, '#' :: cs => some ('#' :: cs.takeWhile (· != '\n'))
  | .text, '"' :: cs => (textRest? cs).map ('"' :: ·)
  | .quote, '"' :: _ => some ['"']
  | .symbol spelling _ _, cs => if spelling.isPrefixOf cs then some spelling else none
  | _, _ => none

-- The first pattern of the table that fits, with what it takes.
def first? (cs : List Char) : Option (Pattern × List Char) :=
  table.findSome? fun p => (p.match? cs).map fun lexeme => (p, lexeme)

def reserved : List (String × TokenKind) :=
  [("var", .varKeyword), ("fixed", .fixedKeyword), ("func", .funcKeyword), ("show", .showKeyword),
   ("throw", .throwKeyword), ("integer", .integerType), ("point", .pointType),
   ("text", .textType), ("state", .stateType), ("empty", .emptyLiteral), ("YES", .stateLiteral),
   ("NO", .stateLiteral)]

def maxIdentifierLength : Nat := 20

-- Why a word that is not reserved cannot be an identifier.
def wordFlaw? (lexeme : List Char) : Option String :=
  if !(lexeme.head?.any fun c => 'a' ≤ c && c ≤ 'z') then
    some "identifiers must start with a lowercase letter"
  else if maxIdentifierLength < lexeme.length then
    some "identifiers may not exceed 20 characters"
  else none

-- The most digits of an integer literal, and of each side of a point literal.
def maxDigits : Nat := 9

def unsignedPart (negative : Bool) (lexeme : List Char) : List Char :=
  if negative then lexeme.drop 1 else lexeme

-- Zeros in front do not count.
def integerFits (digits : List Char) : Bool :=
  (digits.dropWhile (· == '0')).length ≤ maxDigits

-- Zeros in front do count.
def pointFits (digits : List Char) : Bool :=
  (digits.takeWhile (· != '.')).length ≤ maxDigits &&
    ((digits.dropWhile (· != '.')).drop 1).length ≤ maxDigits

def escape? : Char → Option Char
  | 'n' => some '\n'
  | 't' => some '\t'
  | 'r' => some '\r'
  | '\\' => some '\\'
  | '"' => some '"'
  | _ => none

-- The text that the inside of a literal means; a backslash before anything else stays.
def unescape : List Char → List Char
  | [] => []
  | ['\\'] => ['\\']
  | '\\' :: c :: cs =>
    match escape? c with
    | some meant => meant :: unescape cs
    | none => '\\' :: c :: unescape cs
  | c :: cs => c :: unescape cs

def inside (lexeme : List Char) : List Char := (lexeme.drop 1).dropLast

-- Blanks and comments leave no token.
def token? (p : Pattern) (lexeme : List Char) (span : Span) : Except FaultCause (Option Token) :=
  let written := String.ofList lexeme
  match p with
  | .word =>
    match reserved.lookup written with
    | some kind => .ok (some ⟨kind, written, span⟩)
    | none =>
      match wordFlaw? lexeme with
      | some reason => .error (.invalidIdentifier written reason)
      | none => .ok (some ⟨.identifier, written, span⟩)
  | .integer negative =>
    let kind := if negative then .negIntegerLiteral else .integerLiteral
    if integerFits (unsignedPart negative lexeme) then .ok (some ⟨kind, written, span⟩)
    else .error (.invalidInteger written)
  | .point negative =>
    let kind := if negative then .negPointLiteral else .pointLiteral
    if pointFits (unsignedPart negative lexeme) then .ok (some ⟨kind, written, span⟩)
    else .error (.invalidPoint written)
  | .blanks | .comment => .ok none
  | .text => .ok (some ⟨.textLiteral, String.ofList (unescape (inside lexeme)), span⟩)
  | .quote => .error .unterminatedText
  | .symbol _ kind value => .ok (some ⟨kind, String.ofList value, span⟩)

theorem symbol_listed {spelling value : List Char} {kind : TokenKind}
    (member : symbol spelling kind value ∈ table) :
    value = spelling ∧ (kind, spelling) ∈ symbols := by
  have same : ∀ row ∈ symbolRows, row.value = row.spelling := by decide
  have listed : ∃ row ∈ symbolRows, symbol row.spelling row.kind row.value =
      symbol spelling kind value := by
    simpa [table] using member
  obtain ⟨row, listed, written⟩ := listed
  cases written
  refine ⟨same row listed, List.mem_map.2 ⟨row, listed, ?_⟩⟩
  rw [same row listed]

theorem run?_takes {p : Char → Bool} {cs lexeme : List Char} (h : run? p cs = some lexeme) :
    lexeme ≠ [] ∧ lexeme <+: cs := by
  unfold run? at h
  split at h
  · cases h
  · rename_i taken nonempty
    cases h
    exact ⟨nonempty, List.takeWhile_prefix p⟩

theorem pointMatch?_takes {cs lexeme : List Char} (h : pointMatch? cs = some lexeme) :
    lexeme ≠ [] ∧ lexeme <+: cs := by
  unfold pointMatch? at h
  obtain ⟨whole, found, h⟩ := Option.bind_eq_some_iff.1 h
  split at h
  · rename_i rest tail
    obtain ⟨fraction, fractional, rfl⟩ := Option.map_eq_some_iff.1 h
    obtain ⟨_, more, rfl⟩ := run?_takes found
    obtain ⟨_, last, rfl⟩ := run?_takes fractional
    rw [List.drop_left] at tail
    subst tail
    exact ⟨by simp, last, by simp⟩
  · cases h

theorem negated?_takes {inner : List Char → Option (List Char)} {cs lexeme : List Char}
    (sound : ∀ xs taken, inner xs = some taken → taken ≠ [] ∧ taken <+: xs)
    (h : negated? inner cs = some lexeme) : lexeme ≠ [] ∧ lexeme <+: cs := by
  unfold negated? at h
  split at h
  · obtain ⟨taken, found, rfl⟩ := Option.map_eq_some_iff.1 h
    obtain ⟨_, more, rfl⟩ := sound _ _ found
    exact ⟨by simp, more, by simp⟩
  · cases h

theorem textRest?_takes {cs lexeme : List Char} (h : textRest? cs = some lexeme) :
    lexeme ≠ [] ∧ lexeme <+: cs := by
  fun_induction textRest? cs generalizing lexeme with
  | case1 => cases h
  | case2 rest => cases h; exact ⟨by simp, rest, rfl⟩
  | case3 => cases h
  | case4 c cs _ ih =>
    obtain ⟨taken, found, rfl⟩ := Option.map_eq_some_iff.1 h
    obtain ⟨_, more, rfl⟩ := ih found
    exact ⟨by simp, more, by simp⟩
  | case5 => cases h
  | case6 c cs _ _ _ ih =>
    obtain ⟨taken, found, rfl⟩ := Option.map_eq_some_iff.1 h
    obtain ⟨_, more, rfl⟩ := ih found
    exact ⟨by simp, more, by simp⟩

end Pattern

end Scriptlet
