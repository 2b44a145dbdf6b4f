import Scriptlet.Proofs.Point.Spelling
import Scriptlet.Proofs.Target.Texts

/-!
Which generated expressions can be read back, and as what. Their texts show numbers without a sign
only, so a negative number counts as the negation of a positive one.
-/

namespace Scriptlet.Target

def constants : List (List Char × Expr) :=
  [(['T', 'r', 'u', 'e'], .boolean true), (['F', 'a', 'l', 's', 'e'], .boolean false),
   (['N', 'o', 'n', 'e'], .null)]

def notWord : List Char := ['n', 'o', 't']

def passWord : List Char := ['p', 'a', 's', 's']

def returnWord : List Char := ['r', 'e', 't', 'u', 'r', 'n']

def globalWord : List Char := ['g', 'l', 'o', 'b', 'a', 'l']

def nonlocalWord : List Char := ['n', 'o', 'n', 'l', 'o', 'c', 'a', 'l']

-- The words that are no names.
def keywords : List (List Char) :=
  constants.map Prod.fst ++
    [notWord, passWord, returnWord, globalWord, nonlocalWord, headerWord]

-- A name as generated code has it.
structure IsSpelling (n : String) : Prop where
  starts : ∃ c cs, n.toList = c :: cs ∧ Pattern.isWordStart c = true
  chars : ∀ c ∈ n.toList, Pattern.isWordChar c = true
  free : n.toList ∉ keywords

theorem IsSpelling.ne_nil {n : String} (spelling : IsSpelling n) : n.toList ≠ [] := by
  obtain ⟨c, cs, same, -⟩ := spelling.starts
  rw [same]
  exact List.cons_ne_nil _ _

theorem IsSpelling.isWord {n : String} (spelling : IsSpelling n) : IsWord n := by
  refine .of_chars spelling.ne_nil spelling.chars fun header => spelling.free ?_
  rw [header]
  decide

theorem not_digit_of_wordStart {c : Char} (start : Pattern.isWordStart c = true) :
    c.isDigit = false := by
  by_contra digit
  have below : c ≤ '9' := by
    simp only [Char.isDigit, Bool.not_eq_false, Bool.and_eq_true, decide_eq_true_eq] at digit
    exact digit.2
  simp only [Pattern.isWordStart, Pattern.isLetter, Bool.or_eq_true, Bool.and_eq_true,
    decide_eq_true_eq, beq_iff_eq] at start
  rcases start with (lower | upper) | underscore
  · exact absurd (Char.le_trans lower.1 below) (by decide)
  · exact absurd (Char.le_trans upper.1 below) (by decide)
  · exact absurd (underscore ▸ below) (by decide)

namespace Expr

mutual

-- What can be read back: numbers are finite, and the least integer has no positive counterpart.
def Readable : Expr → Prop
  | .name n => IsSpelling n
  | .integer n => Integer.least < n.toInt
  | .float x => x.isFinite = true
  | .boolean _ | .null | .string _ => True
  | .call f arguments => IsSpelling f ∧ AllReadable arguments
  | .list items => AllReadable items
  | .binary _ left right => left.Readable ∧ right.Readable
  | .not operand | .negate operand | .grouped operand | .yesNo operand => operand.Readable
  | .falseAfter evaluated => evaluated ≠ [] ∧ AllReadable evaluated

def AllReadable : List Expr → Prop
  | [] => True
  | e :: es => e.Readable ∧ AllReadable es

end

attribute [simp] Readable AllReadable

-- Whether it is a number that is written with a minus sign.
def signed : Expr → Bool
  | .integer n => n.toInt < 0
  | .float x => (Point.parts x matches .finite true _ _)
  | _ => false

def opposite : Expr → Expr
  | .integer n => .integer (-n)
  | .float x => .float (-x)
  | e => e

-- A number as the negation of a number without a sign, where it has one.
def signless (e : Expr) : Expr := if e.signed then .negate e.opposite else e

mutual

-- The expression as its text shows it. Parentheses around a number with a sign are those of the
-- negation.
def canonical : Expr → Expr
  | .integer n => signless (.integer n)
  | .float x => signless (.float x)
  | .call f arguments => .call f (canonicalAll arguments)
  | .list items => .list (canonicalAll items)
  | .binary op left right => .binary op left.canonical right.canonical
  | .not operand => .not operand.canonical
  | .negate operand => .negate operand.canonical
  | .grouped inner => if inner.signed then inner.canonical else .grouped inner.canonical
  | .falseAfter evaluated => .falseAfter (canonicalAll evaluated)
  | .yesNo condition => .yesNo condition.canonical
  | e => e

def canonicalAll : List Expr → List Expr
  | [] => []
  | e :: es => e.canonical :: canonicalAll es

end

end Expr

-- The characters that open a text, a list, and what is in parentheses.
def openers : List Char := ['"', '[', '(']

-- The characters that follow an expression.
def enders : List Char := [' ', ',', ')', ']', ':']

-- Every other character.
def isInner (c : Char) : Bool := !(openers ++ enders).contains c

-- What can follow an expression.
def AtEnd (rest : List Char) : Prop := ∀ c ∈ rest.head?, c ∈ enders

def ifFront : List Char := ['i', 'f', ' ']

def elseBack : List Char := " else \"NO\")".toList

-- The last element of what is in parentheses.
def lastBack : List Char := ['[', '-', '1', ']']

theorem atEnd_cons {c : Char} (ending : c ∈ enders) (rest : List Char) : AtEnd (c :: rest) := by
  intro d first
  cases first
  exact ending

theorem atEnd_nil : AtEnd [] := fun _ first => nomatch first

theorem not_mem_of_absent {p : Char → Bool} {cs : List Char} (absent : cs.any p = false)
    {c : Char} (has : p c = true) : c ∉ cs := by
  intro member
  rw [List.any_eq_true.2 ⟨c, member, has⟩] at absent
  cases absent

theorem inner_of_absent {p : Char → Bool} (absent : (openers ++ enders).any p = false)
    {cs : List Char} (all : ∀ c ∈ cs, p c = true) : ∀ c ∈ cs, isInner c = true := by
  intro c member
  simpa [isInner] using not_mem_of_absent absent (all c member)

theorem IsSpelling.inner {n : String} (spelling : IsSpelling n) :
    ∀ c ∈ n.toList, isInner c = true := inner_of_absent (by decide) spelling.chars

-- What stands behind a word.
def Outer (rest : List Char) : Prop := ∀ c ∈ rest.head?, isInner c = false

theorem AtEnd.outer {s : List Char} (ends : AtEnd s) : Outer s := by
  intro c first
  have member : c ∈ openers ++ enders := List.mem_append_right _ (ends c first)
  simp [isInner, member]

theorem outer_cons {c : Char} (outer : isInner c = false) (s : List Char) : Outer (c :: s) := by
  intro d first
  cases first
  exact outer

theorem word_split {word t : List Char} (inner : ∀ c ∈ word, isInner c = true) (outer : Outer t) :
    (word ++ t).takeWhile isInner = word ∧ (word ++ t).dropWhile isInner = t := by
  rw [List.takeWhile_append_of_pos inner, List.dropWhile_append_of_pos inner]
  cases t with
  | nil => simp
  | cons c t => simp [outer c rfl]

theorem atEnd_close {s : List Char} : AtEnd (')' :: s) := atEnd_cons (by decide) s

theorem atEnd_space {s : List Char} : AtEnd (' ' :: s) := atEnd_cons (by decide) s

theorem text_digits {n : Int64} (unsigned : 0 ≤ n.toInt) :
    (Integer.text n).toList = Nat.toDigits 10 n.toInt.toNat := by
  rw [Integer.text, Int.toString_eq_repr, Int.repr_eq_if, if_pos unsigned, Nat.toList_repr]

theorem toInt_opposite {n : Int64} (above : Integer.least < n.toInt) : (-n).toInt = -n.toInt := by
  have least : Integer.least = -9223372036854775808 := rfl
  have most := Int64.toInt_lt n
  rw [Int64.toInt_neg]
  apply Int.bmod_eq_of_le <;> omega

namespace Expr

-- The characters of elements with commas between them.
def items (es : List Expr) : List Char := (commaSeparated (printAll es)).toList

variable {e f l r : Expr} {es : List Expr} {n : String} {op : Operator} {s t : List Char}

theorem print_call_append :
    (print (.call n es)).toList ++ s = n.toList ++ '(' :: (items es ++ ')' :: s) := by
  simp [print, items]

theorem print_list_append : (print (.list es)).toList ++ s = '[' :: (items es ++ ']' :: s) := by
  simp [print, items]

theorem print_string_append {text : String} :
    (print (.string text)).toList ++ s = '"' :: (text.toList.flatMap stringChar ++ '"' :: s) := by
  simp [print, stringLiteral]

theorem print_binary_append :
    (print (.binary op l r)).toList ++ s = '(' :: (l.print.toList ++
      ' ' :: (op.symbol.toList ++ ' ' :: (r.print.toList ++ ')' :: s))) := by
  simp [print]

theorem print_not_append :
    (print (.not e)).toList ++ s = '(' :: (notWord ++ ' ' :: (e.print.toList ++ ')' :: s)) := by
  simp [print, notWord]

theorem print_negate_append :
    (print (.negate e)).toList ++ s = '(' :: '-' :: (e.print.toList ++ ')' :: s) := by
  simp [print]

theorem print_grouped_append :
    (print (.grouped e)).toList ++ s = '(' :: (e.print.toList ++ ')' :: s) := by
  simp [print]

theorem canonicalAll_eq_map (es : List Expr) : canonicalAll es = es.map canonical := by
  induction es with
  | nil => rfl
  | cons e es ih => exact congrArg (e.canonical :: ·) ih

theorem printAll_eq_map (es : List Expr) : printAll es = es.map print := by
  induction es with
  | nil => rfl
  | cons e es ih => exact congrArg (e.print :: ·) ih

theorem allReadable_iff : AllReadable es ↔ ∀ e ∈ es, e.Readable := by
  induction es with
  | nil => simp
  | cons e es ih => rw [AllReadable, ih, List.forall_mem_cons]

theorem print_falseAfter_append :
    (print (.falseAfter es)).toList ++ s =
      '(' :: (items (es ++ [.boolean false]) ++ ')' :: (lastBack ++ s)) := by
  simp [print, items, printAll_eq_map, lastBack]

theorem toList_around {left inner right : String} {front back : List Char}
    (opening : left.toList = front) (closing : right.toList = back) :
    (left ++ inner ++ right).toList ++ s = front ++ (inner.toList ++ (back ++ s)) := by
  simp [← opening, ← closing]

theorem print_yesNo_append :
    (print (.yesNo e)).toList ++ s = '(' :: ((print (.string "YES")).toList ++
      ' ' :: (ifFront ++ (e.print.toList ++ (elseBack ++ s)))) := by
  have opening : "(\"YES\" if ".toList =
      '(' :: ((print (.string "YES")).toList ++ ' ' :: ifFront) := by decide +kernel
  refine (toList_around opening rfl).trans ?_
  simp only [List.append_assoc, List.cons_append]
  rfl

-- The elements after the first one.
def further (es : List Expr) : List Char := es.flatMap fun e => ',' :: ' ' :: e.print.toList

theorem items_cons : items (e :: es) = e.print.toList ++ further es := by
  induction es generalizing e with
  | nil => simp [items, commaSeparated, further]
  | cons f es ih =>
    have step : items (e :: f :: es) = e.print.toList ++ ',' :: ' ' :: items (f :: es) := by
      simp [items, commaSeparated, String.intercalate_cons_cons]
    rw [step, ih]
    rfl

theorem further_append :
    further (e :: es) ++ s = ',' :: ' ' :: (e.print.toList ++ (further es ++ s)) := by
  simp [further]

theorem further_atEnd {c : Char} (closing : c ∈ enders) (rest : List Char) :
    AtEnd (further es ++ c :: rest) := by
  cases es with
  | nil => exact atEnd_cons closing rest
  | cons e es => exact atEnd_cons (by decide) _

theorem length_further (es : List Expr) : es.length ≤ (further es).length ∧
    ∀ e ∈ es, e.print.toList.length ≤ (further es).length := by
  induction es with
  | nil => simp
  | cons f es ih =>
    have step : (further (f :: es)).length = f.print.toList.length + 2 + (further es).length := by
      rw [further, List.flatMap_cons, List.length_append]
      rfl
    rw [step, List.length_cons]
    refine ⟨by omega, List.forall_mem_cons.2 ⟨by omega, fun e member => ?_⟩⟩
    have shorter := ih.2 e member
    omega

theorem length_items (es : List Expr) : es.length ≤ (items es).length + 1 ∧
    ∀ e ∈ es, e.print.toList.length ≤ (items es).length := by
  cases es with
  | nil => simp
  | cons f es =>
    obtain ⟨count, shorter⟩ := length_further es
    rw [items_cons, List.length_append, List.length_cons]
    refine ⟨by omega, List.forall_mem_cons.2 ⟨by omega, fun e member => ?_⟩⟩
    have short := shorter e member
    omega

theorem numeral_starts {x : Float} (unsigned : Point.Unsigned x) :
    ∃ c cs, (floatLiteral x).toList = c :: cs ∧ c.isDigit = true := by
  obtain ⟨m, k, taken⟩ := unsigned
  obtain ⟨v, numeral, -⟩ := Point.literal_numeral taken
  exact numeral.starts

theorem unsigned_of_not_signed {x : Float} (finite : x.isFinite = true)
    (unsigned : signed (.float x) = false) : Point.Unsigned x := by
  obtain ⟨negative, m, k, taken⟩ := Point.parts_of_isFinite finite
  cases negative with
  | false => exact ⟨m, k, taken⟩
  | true => simp [signed, taken] at unsigned

theorem parts_of_signed {x : Float} (signed : signed (.float x) = true) :
    ∃ m k, Point.parts x = .finite true m k := by
  cases taken : Point.parts x with
  | finite negative m k =>
    cases negative with
    | false => simp [Expr.signed, taken] at signed
    | true => exact ⟨m, k, rfl⟩
  | _ => simp [Expr.signed, taken] at signed

theorem not_signed_of_unsigned {x : Float} (unsigned : Point.Unsigned x) :
    signed (.float x) = false := by
  obtain ⟨m, k, taken⟩ := unsigned
  simp [signed, taken]

theorem print_signed (readable : e.Readable) (signed : e.signed = true) :
    e.print.toList = '-' :: e.opposite.print.toList := by
  cases e with
  | integer n =>
    have negative : n.toInt < 0 := of_decide_eq_true signed
    have reversed := toInt_opposite readable
    have digits : (Integer.text (-n)).toList = Nat.toDigits 10 (-n.toInt).toNat := by
      rw [text_digits (by omega), reversed]
    rw [print, Integer.text, Int.toString_eq_repr, Int.repr_eq_if, if_neg (by omega),
      String.toList_append, Nat.toList_repr, opposite, print, digits]
    rfl
  | float x =>
    obtain ⟨m, k, taken⟩ := parts_of_signed signed
    exact (Point.write_signed taken).1
  | _ => cases signed

theorem opposite_readable (readable : e.Readable) (signed : e.signed = true) :
    e.opposite.Readable ∧ e.opposite.signed = false := by
  cases e with
  | integer n =>
    have negative : n.toInt < 0 := of_decide_eq_true signed
    have reversed := toInt_opposite readable
    have least : Integer.least < 0 := by decide
    refine ⟨?_, decide_eq_false ?_⟩
    · show Integer.least < (-n).toInt
      omega
    · omega
  | float x =>
    obtain ⟨m, k, taken⟩ := parts_of_signed signed
    exact ⟨Point.isFinite_neg readable, not_signed_of_unsigned (Point.write_signed taken).2⟩
  | _ => cases signed

theorem canonical_signed (signed : e.signed = true) : e.canonical = .negate e.opposite := by
  cases e with
  | integer n => exact if_pos signed
  | float x => exact if_pos signed
  | _ => cases signed

theorem canonical_opposite (readable : e.Readable) (signed : e.signed = true) :
    e.opposite.canonical = e.opposite := by
  have unsigned := (opposite_readable readable signed).2
  cases e with
  | integer n => exact if_neg (Bool.eq_false_iff.1 unsigned)
  | float x => exact if_neg (Bool.eq_false_iff.1 unsigned)
  | _ => cases signed

end Expr

-- How the text of an expression starts, if it is no number with a sign.
inductive Start : List Char → Prop where
  | opened {c : Char} {rest : List Char} (opens : c ∈ openers) : Start (c :: rest)
  | spelled {n : String} {rest : List Char} (spelling : IsSpelling n) (outer : Outer rest) :
      Start (n.toList ++ rest)
  | digit {c : Char} {rest : List Char} (digit : c.isDigit = true) : Start (c :: rest)
  | constant {c : Char} {rest : List Char} (listed : c ∈ ['T', 'F', 'N']) : Start (c :: rest)

namespace Start

variable {cs : List Char}

theorem head (start : Start cs) : ∃ c rest, cs = c :: rest ∧ c ∉ '-' :: enders := by
  cases start with
  | opened opens =>
    have apart : ∀ c ∈ openers, c ∉ '-' :: enders := by simp [openers, enders]
    exact ⟨_, _, rfl, apart _ opens⟩
  | spelled spelling outer =>
    obtain ⟨c, rest, same, -⟩ := spelling.starts
    have word := spelling.chars c (by rw [same]; exact List.mem_cons_self)
    exact ⟨c, _, by rw [same]; rfl, not_mem_of_absent (by decide) word⟩
  | digit digit => exact ⟨_, _, rfl, not_mem_of_absent (by decide) digit⟩
  | constant listed =>
    have apart : ∀ c ∈ ['T', 'F', 'N'], c ∉ '-' :: enders := by simp [enders]
    exact ⟨_, _, rfl, apart _ listed⟩

theorem unsigned (start : Start cs) : cs.head? ≠ some '-' := by
  obtain ⟨c, rest, same, other⟩ := start.head
  rw [same]
  exact fun minus => other (Option.some.inj minus ▸ List.mem_cons_self)

theorem ne_keyword (start : Start cs) {word t : List Char} (listed : word ∈ [notWord, passWord])
    (outer : Outer t) : word ++ t ≠ cs := by
  have inner : ∀ word ∈ [notWord, passWord], word.all isInner = true ∧ word ∈ keywords := by decide
  have firsts : ∀ word ∈ [notWord, passWord], word.head?.any ['n', 'p'].contains = true := by decide
  obtain ⟨c, first, member⟩ := (Option.any_eq_true _ _).1 (firsts word listed)
  obtain ⟨rest, starts⟩ := List.head?_eq_some_iff.1 first
  intro same
  cases start with
  | opened opens =>
    rw [starts] at same
    exact not_mem_of_absent (by decide) member ((List.cons.inj same).1 ▸ opens)
  | spelled spelling outer' =>
    have front := (word_split (List.all_eq_true.1 (inner word listed).1) outer).1
    rw [same, (word_split spelling.inner outer').1] at front
    exact spelling.free (front ▸ (inner word listed).2)
  | digit digit =>
    have letters : ['n', 'p'].any Char.isDigit = false := by decide
    rw [starts] at same
    rw [← (List.cons.inj same).1] at digit
    exact not_mem_of_absent letters digit (List.contains_iff_mem.1 member)
  | constant listed =>
    rw [starts] at same
    exact not_mem_of_absent (by decide) member ((List.cons.inj same).1 ▸ listed)

end Start

namespace Expr

variable {e : Expr} {s : List Char}

theorem start (readable : e.Readable) (unsigned : e.signed = false) (ends : AtEnd s) :
    Start (e.print.toList ++ s) := by
  cases e with
  | name n => exact .spelled readable ends.outer
  | integer n =>
    have digital := Point.Layout.allDigits_toDigits n.toInt.toNat
    obtain ⟨c, cs, same, digit⟩ := digital.head (Point.Layout.toDigits_ne_nil _)
    rw [print, text_digits (Int.not_lt.1 (of_decide_eq_false unsigned)), same]
    exact .digit digit
  | float x =>
    obtain ⟨c, cs, same, digit⟩ := numeral_starts (unsigned_of_not_signed readable unsigned)
    rw [print, same]
    exact .digit digit
  | boolean b => cases b <;> exact .constant (by decide)
  | null => exact .constant (by decide)
  | string text => exact print_string_append ▸ .opened (by decide)
  | call n arguments =>
    exact print_call_append ▸ .spelled readable.1 (outer_cons (by decide) _)
  | list items => exact print_list_append ▸ .opened (by decide)
  | binary op left right => exact print_binary_append ▸ .opened (by decide)
  | not operand => exact print_not_append ▸ .opened (by decide)
  | negate operand => exact print_negate_append ▸ .opened (by decide)
  | grouped inner => exact print_grouped_append ▸ .opened (by decide)
  | falseAfter evaluated => exact print_falseAfter_append ▸ .opened (by decide)
  | yesNo condition => exact print_yesNo_append ▸ .opened (by decide)

theorem print_head (readable : e.Readable) (ends : AtEnd s) :
    ∃ c rest, e.print.toList ++ s = c :: rest ∧ c ∉ enders := by
  cases signed : e.signed with
  | false =>
    obtain ⟨c, rest, same, other⟩ := (start readable signed ends).head
    exact ⟨c, rest, same, fun ending => other (List.mem_cons_of_mem _ ending)⟩
  | true =>
    rw [print_signed readable signed]
    exact ⟨_, _, rfl, by decide⟩

end Expr

end Scriptlet.Target
