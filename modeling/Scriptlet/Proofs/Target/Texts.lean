import Scriptlet.Proofs.Target.Lowered
import Scriptlet.Proofs.Typing.Payloads

/-!
The texts that generated lines are made of. None of them breaks a line, whatever characters the
texts of the program contain, and a text that can start a line starts with a word other than `def`.
-/

namespace Scriptlet

namespace Target

-- Text that stays in its line.
def Unbroken (text : String) : Prop := '\n' ∉ text.toList ∧ '\r' ∉ text.toList

instance : DecidablePred Unbroken := fun _ => inferInstanceAs (Decidable (_ ∧ _))

namespace Unbroken

variable {first second : String} {items : List String}

theorem append (left : Unbroken first) (right : Unbroken second) : Unbroken (first ++ second) := by
  unfold Unbroken
  rw [String.toList_append, List.mem_append, List.mem_append]
  exact ⟨not_or.2 ⟨left.1, right.1⟩, not_or.2 ⟨left.2, right.2⟩⟩

theorem commaSeparated (all : ∀ item ∈ items, Unbroken item) :
    Unbroken (Target.commaSeparated items) := by
  unfold Target.commaSeparated
  induction items with
  | nil => decide
  | cons item items ih =>
    obtain ⟨here, others⟩ := List.forall_mem_cons.1 all
    cases items with
    | nil => simpa using here
    | cons next items =>
      rw [String.intercalate_cons_cons]
      exact (here.append (by decide)).append (ih others)

end Unbroken

-- The characters of a text up to the first space.
def firstWord (text : String) : List Char := text.toList.takeWhile (· != ' ')

theorem firstWord_spaced {text : String} (spaced : text.toList.head? = some ' ') :
    firstWord text = [] := by
  obtain ⟨rest, starts⟩ := List.head?_eq_some_iff.1 spaced
  rw [firstWord, starts]
  rfl

theorem starts_of_firstWord {text : String} (filled : firstWord text ≠ []) :
    ∃ c rest, text.toList = c :: rest ∧ c ≠ ' ' := by
  unfold firstWord at filled
  cases chars : text.toList with
  | nil => simp [chars] at filled
  | cons c rest =>
    refine ⟨c, rest, rfl, fun space => filled ?_⟩
    rw [chars, space]
    rfl

-- The word that starts the header of a function.
def headerWord : List Char := ['d', 'e', 'f']

-- Text that starts with a word, and with another one than the header of a function.
def Opens (text : String) : Prop := firstWord text ≠ [] ∧ firstWord text ≠ headerWord

theorem opens_of_first {text : String} {c : Char} (first : text.toList.head? = some c)
    (solid : c ≠ ' ') (other : c ≠ 'd') : Opens text := by
  obtain ⟨rest, starts⟩ := List.head?_eq_some_iff.1 first
  have word : firstWord text = c :: rest.takeWhile (· != ' ') := by
    rw [firstWord, starts, List.takeWhile_cons_of_pos (by simpa using solid)]
  rw [Opens, word]
  exact ⟨List.cons_ne_nil _ _, fun same => other (List.cons.inj same).1⟩

-- A name as it can stand in a line of Python.
structure IsWord (n : String) : Prop where
  filled : n.toList ≠ []
  solid : ' ' ∉ n.toList
  unbroken : Unbroken n
  free : n.toList ≠ headerWord

namespace IsWord

variable {n : String}

theorem firstWord (word : IsWord n) (rest : String) :
    Target.firstWord (n ++ rest) = n.toList ++ Target.firstWord rest := by
  have inside : ∀ c ∈ n.toList, (c != ' ') = true := by
    intro c member
    simpa using fun same : c = ' ' => word.solid (same ▸ member)
  rw [Target.firstWord, String.toList_append, List.takeWhile_append_of_pos inside]
  rfl

theorem opens_alone (word : IsWord n) {rest : String} (apart : Target.firstWord rest = []) :
    Opens (n ++ rest) := by
  rw [Opens, word.firstWord, apart, List.append_nil]
  exact ⟨word.filled, word.free⟩

theorem opens_call (word : IsWord n) (rest : String) : Opens (n ++ ("(" ++ rest)) := by
  have member : '(' ∈ Target.firstWord (n ++ ("(" ++ rest)) := by
    rw [word.firstWord, Target.firstWord, String.toList_append]
    exact List.mem_append_right _ List.mem_cons_self
  refine ⟨List.ne_nil_of_mem member, fun same => ?_⟩
  rw [same] at member
  exact absurd member (by decide)

theorem of_chars (filled : n.toList ≠ []) (chars : ∀ c ∈ n.toList, Pattern.isWordChar c = true)
    (free : n.toList ≠ headerWord) : IsWord n := by
  have absent : ∀ c, Pattern.isWordChar c = false → c ∉ n.toList := by
    intro c other member
    rw [chars c member] at other
    cases other
  exact ⟨filled, absent _ (by decide), ⟨absent _ (by decide), absent _ (by decide)⟩, free⟩

end IsWord

end Target

open Target

theorem IsName.spell_chars {x : String} (named : IsName x) :
    ∀ c ∈ (spell x).toList, Pattern.isWordChar c = true := by
  obtain ⟨c, cs, same, lower, others⟩ := named.starts
  have chars : ∀ d ∈ x.toList, Pattern.isWordChar d = true := by
    rw [same]
    refine List.forall_mem_cons.2 ⟨?_, others⟩
    simp [Pattern.isWordChar, Pattern.isWordStart, Pattern.isLetter, lower.1, lower.2]
  by_cases reserved : reservedNames.contains x = true
  · rw [spell_reserved reserved, toList_marked]
    simp only [List.forall_mem_cons]
    exact ⟨rfl, rfl, rfl, rfl, chars⟩
  · rw [spell_plain reserved]
    exact chars

theorem IsName.isWord {x : String} (named : IsName x) : IsWord (spell x) := by
  obtain ⟨c, cs, same, -⟩ := named.starts
  by_cases reserved : reservedNames.contains x = true
  · refine .of_chars ?_ named.spell_chars ?_
    · simp [spell_reserved reserved]
    · rw [spell_reserved reserved, toList_marked]
      exact fun equal => absurd (List.cons.inj equal).1 (by decide)
  · refine .of_chars ?_ named.spell_chars fun equal => reserved ?_
    · rw [spell_plain reserved, same]
      exact List.cons_ne_nil _ _
    · rw [spell_plain reserved] at equal
      have isDef : x = "def" := String.toList_inj.1 (equal.trans rfl)
      rw [isDef]
      decide

theorem helper_chars {n : String} (helper : n ∈ helperNames) :
    ∀ c ∈ n.toList, Pattern.isWordChar c = true := by
  have all : ∀ n ∈ helperNames, n.toList.all Pattern.isWordChar = true := by decide +kernel
  exact List.all_eq_true.1 (all n helper)

theorem isWord_of_helper {n : String} (helper : n ∈ helperNames) : IsWord n := by
  have all : ∀ n ∈ helperNames, n.toList ≠ [] ∧ n.toList ≠ headerWord := by decide +kernel
  obtain ⟨filled, free⟩ := all n helper
  exact .of_chars filled (helper_chars helper) free

theorem Spelled.isWord {names : List String} {n : String} (all : AllNames names)
    (spelled : Spelled names n) : IsWord n := by
  rcases spelled with member | helper
  · obtain ⟨x, listed, rfl⟩ := List.mem_map.1 member
    exact (all x listed).isWord
  · exact isWord_of_helper helper

theorem Spelled.chars {names : List String} {n : String} (all : AllNames names)
    (spelled : Spelled names n) : ∀ c ∈ n.toList, Pattern.isWordChar c = true := by
  rcases spelled with member | helper
  · obtain ⟨x, listed, rfl⟩ := List.mem_map.1 member
    exact (all x listed).spell_chars
  · exact helper_chars helper

-- The characters that numbers are written with.
def Target.isNumeric (c : Char) : Bool :=
  c.isDigit || ['-', '.', 'e', 'i', 'n', 'f', 'N', 'a'].contains c

-- A number in a line.
structure Target.IsNumeral (text : String) : Prop where
  filled : text ≠ ""
  chars : ∀ c ∈ text.toList, isNumeric c = true

theorem Target.IsNumeral.unbroken {text : String} (numeral : IsNumeral text) : Unbroken text := by
  constructor <;> exact fun member => absurd (numeral.chars _ member) (by decide)

theorem Target.IsNumeral.opens {text : String} (numeral : IsNumeral text) : Opens text := by
  obtain ⟨c, first⟩ := Option.ne_none_iff_exists'.1
    (mt List.head?_eq_none_iff.1 (mt String.toList_eq_nil_iff.1 numeral.filled))
  have numeric := numeral.chars c (List.mem_of_mem_head? first)
  refine opens_of_first first ?_ ?_
  · intro space
    rw [space] at numeric
    exact absurd numeric (by decide)
  · intro header
    rw [header] at numeric
    exact absurd numeric (by decide)

theorem isNumeric_of_mem_toDigits {n : Nat} {c : Char} (member : c ∈ Nat.toDigits 10 n) :
    isNumeric c = true := by
  have digit := Nat.isDigit_of_mem_toDigits (by decide) (by decide) member
  simp [isNumeric, digit]

theorem Integer.text_isNumeral (n : Int64) : IsNumeral (Integer.text n) where
  filled := Integer.text_ne_empty n
  chars := by
    intro c member
    rw [Integer.text, Int.toString_eq_repr, Int.repr_eq_if] at member
    split at member
    · rw [Nat.toList_repr] at member
      exact isNumeric_of_mem_toDigits member
    · rw [String.toList_append, Nat.toList_repr] at member
      rcases List.mem_append.1 member with sign | digit
      · cases List.mem_singleton.1 sign
        decide
      · exact isNumeric_of_mem_toDigits digit

namespace Point.Layout

theorem isNumeric_of_mem_zeros {n : Nat} {c : Char} (member : c ∈ zeros n) :
    isNumeric c = true := by
  rw [List.eq_of_mem_replicate member]
  decide

theorem withPoint_numeric {digits : List Char} {places : Nat}
    (numeric : ∀ c ∈ digits, isNumeric c = true) :
    ∀ c ∈ withPoint digits places, isNumeric c = true := by
  have padded : ∀ c ∈ zeros (places + 1 - digits.length) ++ digits, isNumeric c = true :=
    List.forall_mem_append.2 ⟨fun c => isNumeric_of_mem_zeros, numeric⟩
  refine List.forall_mem_append.2 ⟨?_, List.forall_mem_cons.2 ⟨by decide, ?_⟩⟩
  · exact fun c member => padded c (List.mem_of_mem_take member)
  · exact fun c member => padded c (List.mem_of_mem_drop member)

theorem positionalText_numeric (d : Decimal) :
    ∀ c ∈ literal.positionalText d, isNumeric c = true := by
  have digits : ∀ c ∈ Nat.toDigits 10 d.digits, isNumeric c = true :=
    fun c => isNumeric_of_mem_toDigits
  unfold positionalText
  dsimp only
  split
  · refine List.forall_mem_append.2 ⟨List.forall_mem_append.2 ⟨digits, ?_⟩, ?_⟩
    · exact fun c => isNumeric_of_mem_zeros
    · simp [literal, isNumeric]
  · exact withPoint_numeric digits

theorem exponentText_numeric (e : Int) : ∀ c ∈ literal.exponentText e, isNumeric c = true := by
  unfold exponentText
  refine List.forall_mem_append.2 ⟨List.forall_mem_append.2 ⟨?_, ?_⟩, ?_⟩
  · refine List.forall_mem_cons.2 ⟨by decide, ?_⟩
    split
    · simp [isNumeric]
    · simp [literal]
  · exact fun c => isNumeric_of_mem_zeros
  · exact fun c => isNumeric_of_mem_toDigits

theorem scientificText_numeric (d : Decimal) :
    ∀ c ∈ literal.scientificText d, isNumeric c = true := by
  have digits : ∀ c ∈ Nat.toDigits 10 d.digits, isNumeric c = true :=
    fun c => isNumeric_of_mem_toDigits
  unfold scientificText
  dsimp only
  refine List.forall_mem_append.2 ⟨?_, exponentText_numeric _⟩
  split
  · rename_i lead next more same
    rw [same] at digits
    obtain ⟨first, others⟩ := List.forall_mem_cons.1 digits
    exact List.forall_mem_cons.2 ⟨first, List.forall_mem_cons.2 ⟨by decide, others⟩⟩
  · exact digits

theorem magnitudeText_numeric (d : Decimal) :
    ∀ c ∈ literal.magnitudeText d, isNumeric c = true := by
  unfold magnitudeText
  split
  · exact positionalText_numeric d
  · exact scientificText_numeric d

theorem write_isNumeral (x : Float) : IsNumeral (literal.write x) where
  filled := write_ne_empty x
  chars := by
    have sign : ∀ negative : Bool, ∀ c ∈ if negative then ['-'] else [], isNumeric c = true := by
      intro negative
      cases negative <;> simp [isNumeric]
    unfold write
    dsimp only
    cases parts x with
    | notANumber => simp [isNumeric]
    | infinite negative =>
      rw [String.toList_ofList]
      exact List.forall_mem_append.2 ⟨sign negative, by simp [isNumeric]⟩
    | finite negative mantissa exponent =>
      rw [String.toList_ofList]
      exact List.forall_mem_append.2 ⟨sign negative, magnitudeText_numeric _⟩

end Point.Layout

theorem twoHex_eq {n : Nat} (small : n < 256) :
    twoHex n = [(n / 16).digitChar, (n % 16).digitChar] := by
  unfold twoHex Text.hex
  rw [Nat.toDigits_of_lt_base (by omega), Nat.toDigits_of_lt_base (by omega)]
  rfl

namespace Target

variable {c : Char} {written : List Char}

-- The characters that have an escape of one letter, with that letter.
def shortEscapes : List (Char × Char) :=
  [('\\', '\\'), ('"', '"'), ('n', '\n'), ('t', '\t'), ('r', '\r')]

-- How a character is written in a string literal.
inductive Quoting (c : Char) : List Char → Prop where
  | plain (shown : isControl c = false) (free : c ≠ '"' ∧ c ≠ '\\') : Quoting c [c]
  | short {letter : Char} (listed : (letter, c) ∈ shortEscapes) : Quoting c ['\\', letter]
  | code (small : c.toNat < 256) (control : isControl c = true)
      (other : c ≠ '\n' ∧ c ≠ '\t' ∧ c ≠ '\r') :
      Quoting c ['\\', 'x', (c.toNat / 16).digitChar, (c.toNat % 16).digitChar]

theorem stringChar_quoting (c : Char) : Quoting c (stringChar c) := by
  unfold stringChar
  split_ifs with backslash quote newline tab carriage control
  · exact .short (by simp [shortEscapes, backslash])
  · exact .short (by simp [shortEscapes, quote])
  · exact .short (by simp [shortEscapes, newline])
  · exact .short (by simp [shortEscapes, tab])
  · exact .short (by simp [shortEscapes, carriage])
  · have small : c.toNat < 256 := by
      simp only [isControl, Bool.or_eq_true, Bool.and_eq_true, decide_eq_true_eq] at control
      omega
    rw [twoHex_eq small]
    exact .code small control ⟨newline, tab, carriage⟩
  · exact .plain (Bool.eq_false_iff.2 control) ⟨quote, backslash⟩

theorem Quoting.visible (quoting : Quoting c written) : ∀ d ∈ written, isControl d = false := by
  cases quoting with
  | plain shown free => exact List.forall_mem_singleton.2 shown
  | @short letter listed =>
    have letters : ∀ row ∈ shortEscapes, isControl row.1 = false := by decide
    exact List.forall_mem_cons.2 ⟨rfl, List.forall_mem_singleton.2 (letters _ listed)⟩
  | code small control other =>
    have digit : ∀ n < 16, isControl n.digitChar = false := by decide
    simp only [List.forall_mem_cons]
    exact ⟨rfl, rfl, digit _ (by omega), digit _ (by omega), List.forall_mem_nil _⟩

end Target

theorem stringChar_unbroken (c : Char) : '\n' ∉ stringChar c ∧ '\r' ∉ stringChar c := by
  have visible := (stringChar_quoting c).visible
  exact ⟨fun member => absurd (visible _ member) (by decide),
    fun member => absurd (visible _ member) (by decide)⟩

theorem stringLiteral_unbroken (s : String) : Unbroken (stringLiteral s) := by
  have inside : ∀ c, (∀ d, c ∉ stringChar d) → c ≠ '"' → c ∉ (stringLiteral s).toList := by
    intro c absent other
    simp [stringLiteral, absent, other]
  exact ⟨inside _ (fun d => (stringChar_unbroken d).1) (by decide),
    inside _ (fun d => (stringChar_unbroken d).2) (by decide)⟩

theorem Arithmetic.symbol_unbroken (op : Arithmetic) : Unbroken op.symbol := by
  cases op <;> decide

theorem Target.Operator.symbol_unbroken (op : Target.Operator) : Unbroken op.symbol := by
  cases op with
  | arithmetic op => exact op.symbol_unbroken
  | comparison op => cases op <;> decide
  | bitOr => decide
  | bitAnd => decide

namespace Target

-- All of these are words.
def AllWords (names : List String) : Prop := ∀ n ∈ names, IsWord n

theorem AllWords.append {names names' : List String} (all : AllWords (names ++ names')) :
    AllWords names ∧ AllWords names' := List.forall_mem_append.1 all

theorem AllWords.cons {n : String} {names : List String} (all : AllWords (n :: names)) :
    IsWord n ∧ AllWords names := List.forall_mem_cons.1 all

theorem AllWords.commaSeparated {names : List String} (all : AllWords names) :
    Unbroken (commaSeparated names) :=
  .commaSeparated fun n member => (all n member).unbroken

namespace Expr

theorem print_binary {op : Operator} {l r : Expr} (left : Unbroken l.print)
    (right : Unbroken r.print) : Unbroken (print (.binary op l r)) := by
  rw [print]
  have opened := (Unbroken.append (by decide : Unbroken "(") left).append (by decide : Unbroken " ")
  have operated := (opened.append op.symbol_unbroken).append (by decide : Unbroken " ")
  exact (operated.append right).append (by decide)

theorem print_call {function : String} {arguments : List Expr} (word : IsWord function)
    (all : ∀ text ∈ printAll arguments, Unbroken text) :
    Unbroken (print (.call function arguments)) := by
  rw [print]
  exact ((word.unbroken.append (by decide)).append (.commaSeparated all)).append (by decide)

theorem print_falseAfter {evaluated : List Expr}
    (all : ∀ text ∈ printAll evaluated, Unbroken text) :
    Unbroken (print (.falseAfter evaluated)) := by
  rw [print]
  have listed : ∀ text ∈ printAll evaluated ++ ["False"], Unbroken text :=
    List.forall_mem_append.2 ⟨all, List.forall_mem_singleton.2 (by decide)⟩
  exact (Unbroken.append (by decide) (.commaSeparated listed)).append (by decide)

theorem print_around {e inner : Expr} (left right : String)
    (same : e.print = left ++ inner.print ++ right) (opening : Unbroken left)
    (unbroken : Unbroken inner.print) (closing : Unbroken right) : Unbroken e.print := by
  rw [same]
  exact (opening.append unbroken).append closing

mutual

theorem print_unbroken : ∀ e : Expr, AllWords e.names → Unbroken e.print
  | .name _, words => words.cons.1.unbroken
  | .integer n, _ => (Integer.text_isNumeral n).unbroken
  | .float x, _ => (Point.Layout.write_isNumeral x).unbroken
  | .boolean true, _ | .boolean false, _ | .null, _ => by decide
  | .string s, _ => stringLiteral_unbroken s
  | .call _ arguments, words => print_call words.cons.1 (printAll_unbroken arguments words.cons.2)
  | .list items, words =>
    (Unbroken.append (by decide) (.commaSeparated (printAll_unbroken items words))).append
      (by decide)
  | .binary _ left right, words =>
    print_binary (left.print_unbroken words.append.1) (right.print_unbroken words.append.2)
  | .not operand, words =>
    print_around "(not " ")" rfl (by decide) (operand.print_unbroken words) (by decide)
  | .negate operand, words =>
    print_around "(-" ")" rfl (by decide) (operand.print_unbroken words) (by decide)
  | .grouped inner, words =>
    print_around "(" ")" rfl (by decide) (inner.print_unbroken words) (by decide)
  | .falseAfter evaluated, words => print_falseAfter (printAll_unbroken evaluated words)
  | .yesNo condition, words =>
    print_around "(\"YES\" if " " else \"NO\")" rfl (by decide) (condition.print_unbroken words)
      (by decide)

theorem printAll_unbroken : ∀ es : List Expr, AllWords (namesAll es) →
    ∀ text ∈ printAll es, Unbroken text
  | [], _ => fun _ member => nomatch member
  | e :: es, words =>
    List.forall_mem_cons.2
      ⟨e.print_unbroken words.append.1, printAll_unbroken es words.append.2⟩

end

theorem print_opens (e : Expr) (words : AllWords e.names) : Opens e.print := by
  have opened : ∀ {text : String}, text.toList.head? = some '(' → Opens text :=
    fun first => opens_of_first first (by decide) (by decide)
  cases e with
  | name spelling => simpa [print] using words.cons.1.opens_alone (by decide : firstWord "" = [])
  | integer n => exact (Integer.text_isNumeral n).opens
  | float x => exact (Point.Layout.write_isNumeral x).opens
  | boolean b => cases b <;> exact opens_of_first rfl (by decide) (by decide)
  | null => exact opens_of_first rfl (by decide) (by decide)
  | string s =>
    have first : (stringLiteral s).toList.head? = some '"' := by simp [stringLiteral]
    exact opens_of_first first (by decide) (by decide)
  | call function arguments =>
    rw [print, String.append_assoc, String.append_assoc]
    exact words.cons.1.opens_call _
  | list items =>
    have first : (print (.list items)).toList.head? = some '[' := by simp [print]
    exact opens_of_first first (by decide) (by decide)
  | binary op left right => exact opened (by simp [print])
  | not operand => exact opened (by simp [print])
  | negate operand => exact opened (by simp [print])
  | grouped inner => exact opened (by simp [print])
  | falseAfter evaluated => exact opened (by simp [print])
  | yesNo condition => exact opened (by simp [print])

end Expr

end Target

end Scriptlet
