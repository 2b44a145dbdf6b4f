import Scriptlet.Proofs.Target.Readable
import Scriptlet.Proofs.Target.StringLiteral
import Scriptlet.Proofs.Value.Decimal

/-!
Reading generated expressions. A reader by recursive descent takes the text of an expression,
followed by anything that can follow one, back to the expression.
-/

namespace Scriptlet.Target

-- The inside of a string literal, up to the quote that ends it, and what follows.
def untilQuote : List Char → Option (List Char × List Char)
  | '"' :: rest => some ([], rest)
  | '\\' :: c :: rest => (untilQuote rest).map fun found => ('\\' :: c :: found.1, found.2)
  | c :: rest => (untilQuote rest).map fun found => (c :: found.1, found.2)
  | [] => none

def Operator.all : List Operator :=
  [.arithmetic .add, .arithmetic .subtract, .arithmetic .multiply, .arithmetic .divide,
   .arithmetic .modulo, .comparison .equal, .comparison .notEqual, .comparison .less,
   .comparison .lessEqual, .comparison .greater, .comparison .greaterEqual, .bitOr, .bitAnd]

theorem Operator.mem_all (op : Operator) : op ∈ all := by
  cases op with
  | arithmetic op => cases op <;> decide
  | comparison op => cases op <;> decide
  | bitOr => decide
  | bitAnd => decide

def readOperator (cs : List Char) : Option (Operator × List Char) :=
  (Operator.all.find? fun op => op.symbol.toList == cs.takeWhile isInner).map
    (·, cs.dropWhile isInner)

abbrev ExprReader := List Char → Option (Expr × List Char)

section Reading

-- How numbers with a decimal point are read, and how expressions inside of others are.
variable (float? : List Char → Option Float) (read : ExprReader)

-- Elements with commas between them, up to a closing character.
def readItems (close : Char) : Nat → List Char → Option (List Expr × List Char)
  | 0, _ => none
  | fuel + 1, cs =>
    if cs.head? = some close then some ([], cs.tail)
    else do
      let (first, rest) ← read cs
      match rest with
      | ',' :: ' ' :: rest => do
        let (others, rest) ← readItems close fuel rest
        return (first :: others, rest)
      | c :: rest => if c = close then some ([first], rest) else none
      | [] => none

-- What follows the first operand in parentheses.
def readRest (first : Expr) : ExprReader
  | ')' :: rest => some (.grouped first, rest)
  | ',' :: ' ' :: rest => do
    let (others, rest) ← readItems read ')' (rest.length + 1) rest
    let rest ← lastBack.isPrefixOf? rest
    return (.falseAfter (first :: others.dropLast), rest)
  | ' ' :: rest =>
    match ifFront.isPrefixOf? rest with
    | some rest => do
      let (condition, rest) ← read rest
      let rest ← elseBack.isPrefixOf? rest
      return (.yesNo condition, rest)
    | none => do
      let (op, rest) ← readOperator rest
      let (right, rest) ← read rest.tail
      let rest ← [')'].isPrefixOf? rest
      return (.binary op first right, rest)
  | _ => none

def readNegative (cs : List Char) : Option (Expr × List Char) := do
  let (operand, rest) ← read cs
  if rest.head? = some ')' then return (.negate operand, rest.tail)
  else readRest read (.negate operand) rest

def readGroup (cs : List Char) : Option (Expr × List Char) :=
  if cs.head? = some '-' then readNegative read cs.tail
  else
    match (notWord ++ [' ']).isPrefixOf? cs with
    | some rest => do
      let (operand, rest) ← read rest
      let rest ← [')'].isPrefixOf? rest
      return (.not operand, rest)
    | none => do
      let (first, rest) ← read cs
      readRest read first rest

def readWord (cs : List Char) : Option Expr :=
  if cs = [] then none
  else if cs.head?.any Char.isDigit then
    ((Integer.read? cs).map .integer).or ((float? cs).map .float)
  else some ((constants.lookup cs).getD (.name (String.ofList cs)))

-- A word, or what it is in front of.
def readFront : List Char → ExprReader
  | [], '"' :: rest => do
    let (inside, rest) ← untilQuote rest
    return (.string (String.ofList (← decode? inside)), rest)
  | [], '[' :: rest => do
    let (items, rest) ← readItems read ']' (rest.length + 1) rest
    return (.list items, rest)
  | [], '(' :: rest => readGroup read rest
  | word, '(' :: rest => do
    let (arguments, rest) ← readItems read ')' (rest.length + 1) rest
    return (.call (String.ofList word) arguments, rest)
  | word, rest => (readWord float? word).map (·, rest)

def readStep (cs : List Char) : Option (Expr × List Char) :=
  if cs.head? = some '-' then do
    let (operand, rest) ← read cs.tail
    return (.negate operand, rest)
  else readFront float? read (cs.takeWhile isInner) (cs.dropWhile isInner)

end Reading

def Expr.read (float? : List Char → Option Float) : Nat → ExprReader
  | 0, _ => none
  | fuel + 1, cs => readStep float? (Expr.read float? fuel) cs

theorem Enclosed.untilQuote {inside : List Char} (enclosed : Enclosed inside) (s : List Char) :
    untilQuote (inside ++ '"' :: s) = some (inside, s) := by
  induction enclosed with
  | nil => rfl
  | plain free others ih => simp [Target.untilQuote, free, ih]
  | escape others ih => simp [Target.untilQuote, ih]

theorem readOperator_symbol (op : Operator) (s : List Char) :
    readOperator (op.symbol.toList ++ ' ' :: s) = some (op, ' ' :: s) := by
  have inner : ∀ op ∈ Operator.all, op.symbol.toList.all isInner = true := by decide +kernel
  have found : ∀ op ∈ Operator.all,
      (Operator.all.find? fun other => other.symbol.toList == op.symbol.toList) = some op := by
    decide +kernel
  obtain ⟨front, back⟩ := word_split (List.all_eq_true.1 (inner op op.mem_all))
    (outer_cons (by decide : isInner ' ' = false) s)
  rw [readOperator, front, back, found op op.mem_all]
  rfl

theorem isPrefixOf?_append (front rest : List Char) :
    front.isPrefixOf? (front ++ rest) = some rest :=
  List.isPrefixOf?_eq_some_iff_append_eq.2 rfl

theorem isPrefixOf?_symbol (op : Operator) (s : List Char) :
    ifFront.isPrefixOf? (op.symbol.toList ++ s) = none := by
  have other : ∀ op ∈ Operator.all, op.symbol.toList.head?.all (· != 'i') = true := by
    decide +kernel
  have filled : ∀ op ∈ Operator.all, op.symbol.toList ≠ [] := by decide +kernel
  obtain ⟨c, cs, same⟩ := List.exists_cons_of_ne_nil (filled op op.mem_all)
  have first := other op op.mem_all
  rw [same] at first ⊢
  rw [Option.eq_none_iff_forall_ne_some]
  intro rest found
  have starts := List.isPrefixOf?_eq_some_iff_append_eq.1 found
  rw [← (List.cons.inj starts).1] at first
  cases first

-- The reader takes the text of the expression back to it, whatever follows.
def Reads (read : ExprReader) (e : Expr) : Prop :=
  ∀ s, AtEnd s → read (e.print.toList ++ s) = some (e.canonical, s)

section Reads

variable {float? : List Char → Option Float} {read : ExprReader} {e : Expr} {es : List Expr}
  {s word : List Char}

theorem readWord_name {n : String} (spelling : IsSpelling n) :
    readWord float? n.toList = some (.name n) := by
  obtain ⟨c, cs, same, start⟩ := spelling.starts
  have first : ¬ n.toList.head?.any Char.isDigit = true := by
    simp [same, not_digit_of_wordStart start]
  have free : constants.lookup n.toList = none := by
    rw [List.lookup_eq_none_iff]
    intro row listed
    have other : n.toList ≠ row.1 := fun equal => spelling.free
      (equal ▸ List.mem_append_left _ (List.mem_map_of_mem listed))
    simpa using other
  rw [readWord, if_neg spelling.ne_nil, if_neg first, free]
  simp

theorem readWord_integer {n : Int64} (unsigned : 0 ≤ n.toInt) :
    readWord float? (Integer.text n).toList = some (.integer n) := by
  have decimal := Integer.text_decimal n
  have digital := Point.Layout.allDigits_toDigits n.toInt.toNat
  obtain ⟨c, cs, same, digit⟩ := digital.head (Point.Layout.toDigits_ne_nil _)
  have first : (Integer.text n).toList.head?.any Char.isDigit = true := by
    rw [text_digits unsigned, same]
    exact digit
  rw [readWord, if_neg decimal.ne_nil, if_pos first, Integer.read?_iff.2 decimal]
  rfl

theorem readWord_float {x : Float} (unsigned : Point.Unsigned x)
    (found : float? (floatLiteral x).toList = some x) :
    readWord float? (floatLiteral x).toList = some (.float x) := by
  obtain ⟨m, k, taken⟩ := unsigned
  obtain ⟨v, numeral, -⟩ := Point.literal_numeral taken
  obtain ⟨c, cs, same, digit⟩ := numeral.starts
  have chars : (floatLiteral x).toList = c :: cs := same
  have first : (floatLiteral x).toList.head?.any Char.isDigit = true := by
    rw [chars]
    exact digit
  have mixed : Integer.read? (floatLiteral x).toList = none := by
    rw [Option.eq_none_iff_forall_ne_some]
    intro n decimal
    exact numeral.not_digits ((Integer.read?_iff.1 decimal).digital_of_head first)
  rw [readWord, if_neg (by rw [chars]; exact List.cons_ne_nil _ _), if_pos first, mixed, found]
  rfl

theorem readFront_word (ends : AtEnd s) (word : List Char) :
    readFront float? read word s = (readWord float? word).map (·, s) := by
  cases s with
  | nil => cases word <;> rfl
  | cons c s =>
    have ending := ends c rfl
    simp only [enders, List.mem_cons, List.not_mem_nil, or_false] at ending
    rcases ending with rfl | rfl | rfl | rfl | rfl <;> cases word <;> rfl

theorem readStep_front {t : List Char} (inner : ∀ c ∈ word, isInner c = true) (outer : Outer t)
    (first : (word ++ t).head? ≠ some '-') :
    readStep float? read (word ++ t) = readFront float? read word t := by
  obtain ⟨front, back⟩ := word_split inner outer
  rw [readStep, if_neg first, front, back]

theorem readStep_word {found : Expr} (inner : ∀ c ∈ word, isInner c = true)
    (first : word.head? ≠ some '-') (taken : readWord float? word = some found) (ends : AtEnd s) :
    readStep float? read (word ++ s) = some (found, s) := by
  cases word with
  | nil => cases taken
  | cons c word =>
    rw [readStep_front inner ends.outer first, readFront_word ends, taken]
    rfl

theorem readStep_opened {c : Char} (opens : c ∈ openers) (rest : List Char) :
    readStep float? read (c :: rest) = readFront float? read [] (c :: rest) := by
  have apart : ∀ c ∈ openers, isInner c = false ∧ c ≠ '-' := by
    simp [openers, enders, isInner]
  refine readStep_front (List.forall_mem_nil _) (outer_cons (apart c opens).1 rest) ?_
  exact fun same => (apart c opens).2 (Option.some.inj same)

theorem readStep_group (rest : List Char) :
    readStep float? read ('(' :: rest) = readGroup read rest := readStep_opened (by decide) rest

-- Each element ends where a comma or the closing character follows.
theorem readItems_items {close : Char} (closing : close = ')' ∨ close = ']') {fuel : Nat}
    (readable : Expr.AllReadable es) (reads : ∀ e ∈ es, Reads read e) (enough : es.length < fuel) :
    readItems read close fuel (Expr.items es ++ close :: s) = some (Expr.canonicalAll es, s) := by
  have ending : close ∈ enders := by rcases closing with rfl | rfl <;> decide
  obtain ⟨fuel, rfl⟩ := Nat.exists_eq_succ_of_ne_zero (Nat.ne_zero_of_lt enough)
  induction es generalizing fuel with
  | nil => exact if_pos rfl
  | cons e es ih =>
    obtain ⟨here, others⟩ := List.forall_mem_cons.1 reads
    have ends := @Expr.further_atEnd es close ending s
    obtain ⟨c, rest, starts, other⟩ := Expr.print_head readable.1 ends
    have unclosed : (e.print.toList ++ (Expr.further es ++ close :: s)).head? ≠ some close := by
      rw [starts]
      exact fun same => other (Option.some.inj same ▸ ending)
    rw [Expr.items_cons, List.append_assoc, readItems, if_neg unclosed, here _ ends]
    cases es with
    | nil => rcases closing with rfl | rfl <;> rfl
    | cons f es =>
      obtain ⟨fuel, rfl⟩ := Nat.exists_eq_succ_of_ne_zero
        (Nat.ne_zero_of_lt (Nat.lt_of_succ_lt_succ enough))
      have later := ih readable.2 others fuel (Nat.lt_of_succ_lt_succ enough)
      rw [Expr.items_cons, List.append_assoc] at later
      rw [Expr.further_append]
      simp [later, Expr.canonicalAll]

theorem readStep_string (text : String) : Reads (readStep float? read) (.string text) := by
  intro s ends
  rw [Expr.print_string_append, readStep_opened (by decide), readFront,
    (enclosed_stringChars text.toList).untilQuote s]
  simp [decode?_stringChars, Expr.canonical]

-- The elements of a list or a call.
theorem readItems_enough {close : Char} (closing : close = ')' ∨ close = ']')
    (readable : Expr.AllReadable es) (reads : ∀ e ∈ es, Reads read e) :
    readItems read close ((Expr.items es ++ close :: s).length + 1) (Expr.items es ++ close :: s) =
      some (Expr.canonicalAll es, s) := by
  have count := (Expr.length_items es).1
  refine readItems_items closing readable reads ?_
  rw [List.length_append, List.length_cons]
  omega

theorem readStep_list (readable : Expr.AllReadable es) (reads : ∀ e ∈ es, Reads read e) :
    Reads (readStep float? read) (.list es) := by
  intro s ends
  rw [Expr.print_list_append, readStep_opened (by decide), readFront,
    readItems_enough (.inr rfl) readable reads]
  rfl

theorem readFront_call (filled : word ≠ []) (rest : List Char) :
    readFront float? read word ('(' :: rest) =
      (readItems read ')' (rest.length + 1) rest).bind fun taken =>
        some (.call (String.ofList word) taken.1, taken.2) := by
  cases word with
  | nil => exact absurd rfl filled
  | cons c word => rfl

theorem readStep_call {n : String} (spelling : IsSpelling n) (readable : Expr.AllReadable es)
    (reads : ∀ e ∈ es, Reads read e) : Reads (readStep float? read) (.call n es) := by
  intro s ends
  have outer := outer_cons (by decide : isInner '(' = false) (Expr.items es ++ ')' :: s)
  have start := Start.spelled spelling outer
  rw [Expr.print_call_append, readStep_front spelling.inner outer start.unsigned,
    readFront_call spelling.ne_nil, readItems_enough (.inl rfl) readable reads]
  simp [Expr.canonical]

theorem readGroup_minus (cs : List Char) : readGroup read ('-' :: cs) = readNegative read cs :=
  if_pos rfl

theorem isPrefixOf?_close : [')'].isPrefixOf? (')' :: s) = some s := isPrefixOf?_append [')'] s

-- A number with a sign is a negation of its own if nothing else stands in the parentheses, and an
-- operand otherwise.
theorem readGroup_signed (readable : e.Readable) (signed : e.signed = true)
    (reads : ∀ f : Expr, f.Readable → f.print.toList.length ≤ e.print.toList.length → Reads read f)
    (ends : AtEnd s) :
    readGroup read (e.print.toList ++ s) =
      if s.head? = some ')' then some (e.canonical, s.tail) else readRest read e.canonical s := by
  have chars := Expr.print_signed readable signed
  have shorter : e.opposite.print.toList.length ≤ e.print.toList.length := by
    rw [chars, List.length_cons]
    omega
  have taken := reads _ (Expr.opposite_readable readable signed).1 shorter s ends
  rw [Expr.canonical_opposite readable signed] at taken
  rw [chars, List.cons_append, readGroup_minus, readNegative, taken, Expr.canonical_signed signed]
  rfl

theorem readGroup_unsigned (readable : e.Readable) (unsigned : e.signed = false)
    (reads : Reads read e) (ends : AtEnd s) :
    readGroup read (e.print.toList ++ s) = readRest read e.canonical s := by
  have start := Expr.start readable unsigned ends
  have plain : (notWord ++ [' ']).isPrefixOf? (e.print.toList ++ s) = none := by
    rw [Option.eq_none_iff_forall_ne_some]
    intro rest found
    have negated := List.isPrefixOf?_eq_some_iff_append_eq.1 found
    rw [List.append_assoc] at negated
    exact start.ne_keyword (by decide) (outer_cons (by decide) rest) negated
  rw [readGroup, if_neg start.unsigned, plain, reads s ends]
  rfl

theorem readGroup_operand (readable : e.Readable)
    (reads : ∀ f : Expr, f.Readable → f.print.toList.length ≤ e.print.toList.length → Reads read f)
    (ends : AtEnd s) (more : s.head? ≠ some ')') :
    readGroup read (e.print.toList ++ s) = readRest read e.canonical s := by
  cases signed : e.signed with
  | true => rw [readGroup_signed readable signed reads ends, if_neg more]
  | false => exact readGroup_unsigned readable signed (reads e readable (Nat.le_refl _)) ends

theorem readStep_negate (reads : Reads read e) : Reads (readStep float? read) (.negate e) := by
  intro s ends
  rw [Expr.print_negate_append, readStep_group, readGroup_minus, readNegative,
    reads _ atEnd_close]
  rfl

theorem readStep_not (reads : Reads read e) : Reads (readStep float? read) (.not e) := by
  intro s ends
  have first : ¬ (notWord ++ ' ' :: (e.print.toList ++ ')' :: s)).head? = some '-' :=
    fun minus => absurd (Option.some.inj minus) (by decide)
  have front : (notWord ++ [' ']).isPrefixOf? (notWord ++ ' ' :: (e.print.toList ++ ')' :: s)) =
      some (e.print.toList ++ ')' :: s) := isPrefixOf?_append (notWord ++ [' ']) _
  rw [Expr.print_not_append, readStep_group, readGroup, if_neg first, front]
  simp [reads _ atEnd_close, isPrefixOf?_close, Expr.canonical]

theorem readStep_grouped (readable : e.Readable)
    (reads : ∀ f : Expr, f.Readable → f.print.toList.length ≤ e.print.toList.length →
      Reads read f) : Reads (readStep float? read) (.grouped e) := by
  intro s ends
  rw [Expr.print_grouped_append, readStep_group, Expr.canonical]
  cases signed : e.signed with
  | true =>
    rw [readGroup_signed readable signed reads atEnd_close]
    rfl
  | false =>
    rw [readGroup_unsigned readable signed (reads e readable (Nat.le_refl _)) atEnd_close]
    rfl

theorem readStep_binary {l r : Expr} {op : Operator} (readable : l.Readable)
    (reads : ∀ f : Expr, f.Readable → f.print.toList.length ≤ l.print.toList.length → Reads read f)
    (right : Reads read r) : Reads (readStep float? read) (.binary op l r) := by
  intro s ends
  rw [Expr.print_binary_append, readStep_group,
    readGroup_operand readable reads atEnd_space (by simp), readRest, isPrefixOf?_symbol,
    readOperator_symbol]
  simp [right _ atEnd_close, isPrefixOf?_close, Expr.canonical]

theorem readStep_yesNo (yes : Reads read (.string "YES")) (reads : Reads read e) :
    Reads (readStep float? read) (.yesNo e) := by
  intro s ends
  have finished : AtEnd (elseBack ++ s) := atEnd_space
  have readable : Expr.Readable (.string "YES") := trivial
  rw [Expr.print_yesNo_append, readStep_group, readGroup_unsigned readable rfl yes atEnd_space,
    readRest, isPrefixOf?_append]
  simp [reads _ finished, isPrefixOf?_append, Expr.canonical]

theorem readStep_falseAfter (readable : Expr.Readable (.falseAfter es))
    (reads : ∀ f : Expr, f.Readable →
      f.print.toList.length ≤ (Expr.items (es ++ [.boolean false])).length → Reads read f) :
    Reads (readStep float? read) (.falseAfter es) := by
  intro s ends
  obtain ⟨filled, all⟩ := readable
  cases es with
  | nil => exact absurd rfl filled
  | cons e es =>
    have others : Expr.AllReadable (es ++ [.boolean false]) := Expr.allReadable_iff.2
      (List.forall_mem_append.2 ⟨Expr.allReadable_iff.1 all.2, List.forall_mem_singleton.2 trivial⟩)
    obtain ⟨-, shorter⟩ := Expr.length_items (e :: (es ++ [.boolean false]))
    obtain ⟨first, later⟩ := List.forall_mem_cons.1 shorter
    have taken := readItems_enough (s := lastBack ++ s) (.inl rfl) others fun f member =>
      reads f (Expr.allReadable_iff.1 others f member) (later f member)
    obtain ⟨f, fs, same⟩ := List.exists_cons_of_ne_nil
      (List.append_ne_nil_of_right_ne_nil es (List.cons_ne_nil (Expr.boolean false) []))
    rw [Expr.print_falseAfter_append, readStep_group, List.cons_append, Expr.items_cons,
      List.append_assoc, readGroup_operand all.1
        (fun f readable short => reads f readable (Nat.le_trans short first))
        (Expr.further_atEnd (by decide) _) (by rw [same]; simp [Expr.further]), same,
      Expr.further_append, readRest, ← List.append_assoc, ← Expr.items_cons, ← same, taken]
    simp [isPrefixOf?_append, Expr.canonicalAll_eq_map, Expr.canonical]

theorem lt_length_print {k : Nat} {cs : List Char} (chars : e.print.toList ++ [] = cs)
    (inside : k < cs.length) : k < e.print.toList.length := by
  rwa [← chars, List.append_nil] at inside

theorem readStep_signed (readable : e.Readable) (signed : e.signed = true)
    (reads : Reads read e.opposite) : Reads (readStep float? read) e := by
  intro s ends
  rw [Expr.print_signed readable signed, List.cons_append, readStep]
  refine (if_pos rfl).trans ?_
  rw [List.tail_cons, reads s ends, Expr.canonical_opposite readable signed,
    Expr.canonical_signed signed]
  rfl

theorem readStep_single (readable : e.Readable) (unsigned : e.signed = false)
    (same : e.canonical = e) (inner : ∀ c ∈ e.print.toList, isInner c = true)
    (found : readWord float? e.print.toList = some e) : Reads (readStep float? read) e := by
  intro s ends
  have start := Expr.start readable unsigned atEnd_nil
  rw [List.append_nil] at start
  rw [same]
  exact readStep_word inner start.unsigned found ends

-- The reader of numbers undoes the writer.
def ReadsFloats (float? : List Char → Option Float) : Prop :=
  ∀ x, Point.Unsigned x → float? (floatLiteral x).toList = some x

-- One step reads an expression as soon as all with a shorter text are read inside of it.
theorem readStep_reads (floats : ReadsFloats float?) (readable : e.Readable)
    (shorter : ∀ f : Expr, f.Readable → f.print.toList.length < e.print.toList.length →
      Reads read f) : Reads (readStep float? read) e := by
  cases signed : e.signed with
  | true =>
    refine readStep_signed readable signed (shorter _ (Expr.opposite_readable readable signed).1 ?_)
    rw [Expr.print_signed readable signed, List.length_cons]
    exact Nat.lt_succ_self _
  | false =>
    cases e with
    | name n =>
      exact readStep_single readable signed rfl (IsSpelling.inner readable) (readWord_name readable)
    | integer n =>
      exact readStep_single readable signed (if_neg (by simp [signed]))
        (inner_of_absent (by decide) (Integer.text_isNumeral n).chars)
        (readWord_integer (Int.not_lt.1 (of_decide_eq_false signed)))
    | float x =>
      have unsigned := Expr.unsigned_of_not_signed readable signed
      exact readStep_single readable signed (if_neg (by simp [signed]))
        (inner_of_absent (by decide) (Point.Layout.write_isNumeral x).chars)
        (readWord_float unsigned (floats x unsigned))
    | boolean b =>
      cases b <;> exact readStep_single readable signed rfl (List.all_eq_true.1 (by decide)) rfl
    | null => exact readStep_single readable signed rfl (List.all_eq_true.1 (by decide)) rfl
    | string text => exact readStep_string text
    | call n arguments =>
      refine readStep_call readable.1 readable.2 fun f member => ?_
      have short := (Expr.length_items arguments).2 f member
      exact shorter f (Expr.allReadable_iff.1 readable.2 f member)
        (lt_length_print Expr.print_call_append (by grind))
    | list items =>
      refine readStep_list readable fun f member => ?_
      have short := (Expr.length_items items).2 f member
      exact shorter f (Expr.allReadable_iff.1 readable f member)
        (lt_length_print Expr.print_list_append (by grind))
    | binary op left right =>
      refine readStep_binary readable.1 (fun f readable short => shorter f readable ?_)
        (shorter right readable.2 (lt_length_print Expr.print_binary_append (by grind)))
      exact lt_length_print Expr.print_binary_append (by grind)
    | not operand =>
      exact readStep_not
        (shorter operand readable (lt_length_print Expr.print_not_append (by grind)))
    | negate operand =>
      exact readStep_negate
        (shorter operand readable (lt_length_print Expr.print_negate_append (by grind)))
    | grouped inner =>
      refine readStep_grouped readable fun f readable short => shorter f readable ?_
      exact lt_length_print Expr.print_grouped_append (by grind)
    | falseAfter evaluated =>
      refine readStep_falseAfter readable fun f readable short => shorter f readable ?_
      exact lt_length_print Expr.print_falseAfter_append (by grind)
    | yesNo condition =>
      exact readStep_yesNo
        (shorter _ trivial (lt_length_print Expr.print_yesNo_append (by grind)))
        (shorter condition readable (lt_length_print Expr.print_yesNo_append (by grind)))

end Reads

namespace Expr

variable {float? : List Char → Option Float} {e f : Expr}

theorem read_print (floats : ReadsFloats float?) (readable : e.Readable) {fuel : Nat}
    (enough : e.print.toList.length < fuel) :
    Reads (Expr.read float? fuel) e := by
  induction fuel generalizing e with
  | zero => exact absurd enough (Nat.not_lt_zero _)
  | succ fuel ih =>
    refine fun s ends => readStep_reads floats readable (fun f readable shorter => ?_) s ends
    exact ih readable (by omega)

-- Two expressions with the same text are the same but for the signs of numbers.
theorem canonical_eq_of_print (left : e.Readable) (right : f.Readable)
    (same : e.print = f.print) : e.canonical = f.canonical := by
  have floats : ReadsFloats Point.ofLiteral? := fun _ => Point.ofLiteral?_write
  have first := read_print floats left (Nat.lt_succ_self _) [] atEnd_nil
  have second := read_print floats right (Nat.lt_succ_self _) [] atEnd_nil
  rw [same, second] at first
  exact (Prod.mk.inj (Option.some.inj first)).1.symm

end Expr

end Scriptlet.Target
