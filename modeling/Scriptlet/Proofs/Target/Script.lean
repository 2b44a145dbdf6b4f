import Scriptlet.Proofs.Target.Indentation
import Scriptlet.Proofs.Target.Reading

/-!
Reading generated scripts. The text is cut into lines, each line is read as a statement, and the
indentation says which lines are the body of which function. What is read is what the text was
written from.
-/

namespace Scriptlet.Target

namespace Stmt

mutual

-- What can be read back.
def Readable : Stmt → Prop
  | .assign name value | .augment name _ value => IsSpelling name ∧ value.Readable
  | .expression value | .ret value => value.Readable
  | .globals names | .nonlocals names => ∀ n ∈ names, IsSpelling n
  | .pass => True
  | .function name parameters body =>
    IsSpelling name ∧ (∀ n ∈ parameters, IsSpelling n) ∧ body ≠ [] ∧ AllReadable body

def AllReadable : List Stmt → Prop
  | [] => True
  | s :: rest => s.Readable ∧ AllReadable rest

end

mutual

-- The statement as its text shows it.
def canonical : Stmt → Stmt
  | .assign name value => .assign name value.canonical
  | .augment name op value => .augment name op value.canonical
  | .expression value => .expression value.canonical
  | .ret value => .ret value.canonical
  | .function name parameters body => .function name parameters (canonicalAll body)
  | s => s

def canonicalAll : List Stmt → List Stmt
  | [] => []
  | s :: rest => s.canonical :: canonicalAll rest

end

-- What the first line shows of the statement.
def opened : Stmt → Stmt
  | .function name parameters _ => .function name parameters []
  | s => s.canonical

theorem allReadable_iff {block : List Stmt} : AllReadable block ↔ ∀ s ∈ block, s.Readable := by
  induction block with
  | nil => simp [AllReadable]
  | cons s block ih => rw [AllReadable, ih, List.forall_mem_cons]

theorem AllReadable.append {first second : List Stmt} (left : AllReadable first)
    (right : AllReadable second) : AllReadable (first ++ second) := by
  rw [allReadable_iff] at left right ⊢
  exact List.forall_mem_append.2 ⟨left, right⟩

theorem canonicalAll_eq_map (block : List Stmt) : canonicalAll block = block.map canonical := by
  induction block with
  | nil => rfl
  | cons s block ih => exact congrArg (s.canonical :: ·) ih

end Stmt

def Expr.name? : Expr → Option String
  | .name n => some n
  | _ => none

def arithmetics : List Arithmetic := [.add, .subtract, .multiply, .divide, .modulo]

section Line

variable (read : ExprReader)

-- An expression that is all of a text.
def readWhole (cs : List Char) : Option Expr := do
  let (e, rest) ← read cs
  if rest = [] then return e else none

-- The names up to the end of a line.
def readNames (cs : List Char) : Option (List String) := do
  let (items, rest) ← readItems read ')' ((cs ++ [')']).length + 1) (cs ++ [')'])
  if rest = [] then items.mapM Expr.name? else none

-- A header looks like a call with a colon behind it.
def readHeader (cs : List Char) : Option Stmt := do
  let (e, rest) ← read cs
  match e, rest with
  | .call name arguments, [':'] => return .function name (← arguments.mapM Expr.name?) []
  | _, _ => none

def readAssignment (name : String) (cs : List Char) : Option Stmt := do
  let value ← readWhole read (cs.dropWhile isInner).tail
  let mark := cs.takeWhile isInner
  if mark = ['='] then return .assign name value
  else
    let op ← arithmetics.find? fun op => op.symbol.toList ++ ['='] == mark
    return .augment name op value

-- What a line says whose first word has a space behind it.
def readMarked (word cs : List Char) : Option Stmt :=
  if word = globalWord then (readNames read cs).map .globals
  else if word = nonlocalWord then (readNames read cs).map .nonlocals
  else if word = returnWord then (readWhole read cs).map .ret
  else if word = headerWord then readHeader read cs
  else readAssignment read (String.ofList word) cs

def readLine (cs : List Char) : Option Stmt :=
  match cs.dropWhile isInner with
  | ' ' :: rest => readMarked read (cs.takeWhile isInner) rest
  | _ => if cs = passWord then some .pass else (readWhole read cs).map .expression

end Line

-- A statement with what follows it, each at its level. A function takes in the lines below it that
-- are one level deeper; behind other statements there are none.
def attach (depth : Nat) (s : Stmt) (later : List (Nat × Stmt)) : Option (List (Nat × Stmt)) :=
  let inner := later.takeWhile (depth < ·.1)
  match s with
  | .function name parameters _ =>
    if inner.all (·.1 == depth + 1) && !inner.isEmpty then
      some ((depth, .function name parameters (inner.map Prod.snd)) ::
        later.dropWhile (depth < ·.1))
    else none
  | s => if inner.isEmpty then some ((depth, s) :: later) else none

section Script

variable (float? : List Char → Option Float)

-- The last line is read first, so that the body of a function is there when its header is met.
def readLines (width : Nat) : List (List Char) → Option (List (Nat × Stmt))
  | [] => some []
  | line :: rest => do
    let later ← readLines width rest
    let text := line.dropWhile (· == ' ')
    let s ← readLine (Expr.read float? (text.length + 1)) text
    attach ((line.takeWhile (· == ' ')).length / width) s later

-- The lines of a text. Blank ones do not count.
def textLines (cs : List Char) : List (List Char) :=
  (cs.splitOnP (· == '\n')).filter fun line => !line.isEmpty

-- The statements of a script, between the helper and the entry guard.
def readScript (options : CompileOptions) (text : String) : Option (List Stmt) := do
  let width := max options.indentWidth 1
  let front := textLines (Script.preamble width).toList
  let back := if options.entryGuard then textLines (Script.entryGuard width).toList else []
  let lines ← front.isPrefixOf? (textLines text.toList)
  let lines ← back.isSuffixOf? lines
  let statements ← readLines float? width lines
  if statements.all (·.1 == 0) then return statements.map Prod.snd else none

end Script

mutual

theorem Expr.Readable.words : ∀ {e : Expr}, e.Readable → AllWords e.names
  | .name _, readable => List.forall_mem_singleton.2 (IsSpelling.isWord readable)
  | .integer _, _ | .float _, _ | .boolean _, _ | .null, _ | .string _, _ =>
    fun _ member => nomatch member
  | .call _ _, readable => List.forall_mem_cons.2 ⟨readable.1.isWord, readable.2.words⟩
  | .list _, readable => Expr.AllReadable.words readable
  | .binary _ _ _, readable => List.forall_mem_append.2 ⟨readable.1.words, readable.2.words⟩
  | .not e, readable | .negate e, readable | .grouped e, readable | .yesNo e, readable =>
    @Expr.Readable.words e readable
  | .falseAfter _, readable => readable.2.words

theorem Expr.AllReadable.words : ∀ {es : List Expr}, Expr.AllReadable es →
    AllWords (Expr.namesAll es)
  | [], _ => fun _ member => nomatch member
  | _ :: _, readable => List.forall_mem_append.2 ⟨readable.1.words, readable.2.words⟩

end

section Head

variable {read : ExprReader} {s : Stmt} {names : List String} {e : Expr}

theorem allWords_of_spellings (spellings : ∀ n ∈ names, IsSpelling n) : AllWords names :=
  fun n member => (spellings n member).isWord

theorem Stmt.Readable.printable (readable : s.Readable) (depth : Nat) :
    (s.line depth).Printable := by
  cases s with
  | assign name value =>
    exact Writable.printable ⟨rfl, List.forall_mem_cons.2 ⟨readable.1.isWord, readable.2.words⟩⟩
  | augment name op value =>
    exact Writable.printable ⟨rfl, List.forall_mem_cons.2 ⟨readable.1.isWord, readable.2.words⟩⟩
  | expression value => exact Writable.printable ⟨rfl, Expr.Readable.words readable⟩
  | ret value => exact Writable.printable ⟨rfl, Expr.Readable.words readable⟩
  | globals names => exact Writable.printable ⟨rfl, allWords_of_spellings readable⟩
  | nonlocals names => exact Writable.printable ⟨rfl, allWords_of_spellings readable⟩
  | pass => exact Writable.printable ⟨rfl, fun _ member => nomatch member⟩
  | function name parameters body =>
    exact function_printable readable.1.isWord (allWords_of_spellings readable.2.1)

theorem readWhole_print (reads : Reads read e) :
    readWhole read e.print.toList = some e.canonical := by
  have taken := reads [] atEnd_nil
  rw [List.append_nil] at taken
  rw [readWhole, taken]
  rfl

-- Names in a line are read as expressions.
def asExprs (names : List String) : List Expr := names.map .name

theorem asExprs_facts (names : List String) :
    Expr.items (asExprs names) = (commaSeparated names).toList ∧
      Expr.canonicalAll (asExprs names) = asExprs names ∧
      (asExprs names).mapM Expr.name? = some names := by
  refine ⟨?_, ?_, ?_⟩
  · simp [asExprs, Expr.items, Expr.printAll_eq_map, Expr.print, Function.comp_def]
  · simp [asExprs, Expr.canonicalAll_eq_map, Expr.canonical]
  · induction names with
    | nil => rfl
    | cons n names ih =>
      rw [asExprs, List.map_cons, List.mapM_cons, ← asExprs, ih]
      rfl

theorem allReadable_asExprs (spellings : ∀ n ∈ names, IsSpelling n) :
    Expr.AllReadable (asExprs names) :=
  Expr.allReadable_iff.2 (List.forall_mem_map.2 spellings)

theorem readNames_commaSeparated (spellings : ∀ n ∈ names, IsSpelling n)
    (reads : ∀ e ∈ asExprs names, Reads read e) :
    readNames read (commaSeparated names).toList = some names := by
  obtain ⟨chars, same, taken⟩ := asExprs_facts names
  rw [readNames, ← chars, readItems_enough (.inl rfl) (allReadable_asExprs spellings) reads, same]
  exact taken

theorem readLine_marked {word : List Char} (inner : ∀ c ∈ word, isInner c = true)
    (rest : List Char) : readLine read (word ++ ' ' :: rest) = readMarked read word rest := by
  obtain ⟨front, back⟩ := word_split inner (outer_cons (by decide : isInner ' ' = false) rest)
  rw [readLine, back, front]
  rfl

theorem readMarked_name {n : String} (spelling : IsSpelling n) (rest : List Char) :
    readMarked read n.toList rest = readAssignment read n rest := by
  have other : ∀ word ∈ keywords, ¬ n.toList = word :=
    fun word listed same => spelling.free (same ▸ listed)
  rw [readMarked, if_neg (other _ (by decide)), if_neg (other _ (by decide)),
    if_neg (other _ (by decide)), if_neg (other _ (by decide)), String.ofList_toList]

theorem readLine_assign {n : String} (spelling : IsSpelling n) (reads : Reads read e) :
    readLine read (Stmt.assign n e).head.toList = some (.assign n e.canonical) := by
  have chars : (Stmt.assign n e).head.toList =
      n.toList ++ ' ' :: (['='] ++ ' ' :: e.print.toList) := by
    simp [Stmt.head]
  obtain ⟨front, back⟩ := @word_split ['='] _ (List.all_eq_true.1 (by decide))
    (outer_cons (by decide : isInner ' ' = false) e.print.toList)
  rw [chars, readLine_marked spelling.inner, readMarked_name spelling, readAssignment, front, back,
    List.tail_cons, readWhole_print reads]
  rfl

theorem readLine_augment {n : String} {op : Arithmetic} (spelling : IsSpelling n)
    (reads : Reads read e) :
    readLine read (Stmt.augment n op e).head.toList = some (.augment n op e.canonical) := by
  have chars : (Stmt.augment n op e).head.toList =
      n.toList ++ ' ' :: ((op.symbol.toList ++ ['=']) ++ ' ' :: e.print.toList) := by
    simp [Stmt.head]
  have listed : op ∈ arithmetics := by cases op <;> decide
  have marks : ∀ op ∈ arithmetics, (op.symbol.toList ++ ['=']).all isInner = true ∧
      op.symbol.toList ++ ['='] ≠ ['='] ∧
      (arithmetics.find? fun other => other.symbol.toList == op.symbol.toList) = some op := by
    decide +kernel
  obtain ⟨inner, compound, found⟩ := marks op listed
  obtain ⟨front, back⟩ := word_split (List.all_eq_true.1 inner)
    (outer_cons (by decide : isInner ' ' = false) e.print.toList)
  rw [chars, readLine_marked spelling.inner, readMarked_name spelling, readAssignment, front, back,
    List.tail_cons, readWhole_print reads]
  simp [compound, found]

-- No space stands behind the first word of an expression.
theorem dropWhile_print (readable : e.Readable) :
    (e.print.toList.dropWhile isInner).head? ≠ some ' ' := by
  have whole : ∀ {word : List Char}, (∀ c ∈ word, isInner c = true) →
      (word.dropWhile isInner).head? ≠ some ' ' := by
    intro word inner
    have back := (word_split inner atEnd_nil.outer).2
    rw [List.append_nil] at back
    simp [back]
  have opened : ∀ {c : Char} {cs : List Char}, e.print.toList ++ [] = c :: cs → c ∈ openers →
      (e.print.toList.dropWhile isInner).head? ≠ some ' ' := by
    intro c cs starts opens
    have apart : ∀ c ∈ openers, isInner c = false ∧ c ≠ ' ' := by
      simp [openers, enders, isInner]
    rw [List.append_nil] at starts
    simp [starts, apart c opens]
  cases e with
  | name n => exact whole (IsSpelling.inner readable)
  | integer n => exact whole (inner_of_absent (by decide) (Integer.text_isNumeral n).chars)
  | float x => exact whole (inner_of_absent (by decide) (Point.Layout.write_isNumeral x).chars)
  | boolean b => cases b <;> decide
  | null => decide
  | call n arguments =>
    have outer := outer_cons (by decide : isInner '(' = false) (Expr.items arguments ++ [')'])
    have chars := @Expr.print_call_append arguments n []
    rw [List.append_nil] at chars
    rw [chars, (word_split readable.1.inner outer).2]
    exact fun space => absurd (Option.some.inj space) (by decide)
  | string text => exact opened Expr.print_string_append (by decide)
  | list items => exact opened Expr.print_list_append (by decide)
  | binary op left right => exact opened Expr.print_binary_append (by decide)
  | not operand => exact opened Expr.print_not_append (by decide)
  | negate operand => exact opened Expr.print_negate_append (by decide)
  | grouped inner => exact opened Expr.print_grouped_append (by decide)
  | falseAfter evaluated => exact opened Expr.print_falseAfter_append (by decide)
  | yesNo condition => exact opened Expr.print_yesNo_append (by decide)

theorem print_ne_pass (readable : e.Readable) : e.print.toList ≠ passWord := by
  cases signed : e.signed with
  | true =>
    rw [Expr.print_signed readable signed]
    exact fun same => absurd (List.cons.inj same).1 (by decide)
  | false =>
    have start := Expr.start readable signed atEnd_nil
    rw [List.append_nil] at start
    intro same
    refine start.ne_keyword (by decide : passWord ∈ _) atEnd_nil.outer ?_
    rw [List.append_nil, same]

theorem readLine_expression (readable : e.Readable) (reads : Reads read e) :
    readLine read e.print.toList = some (.expression e.canonical) := by
  rw [readLine]
  split
  · rename_i rest back
    exact absurd (by rw [back]; rfl) (dropWhile_print readable)
  · rw [if_neg (print_ne_pass readable), readWhole_print reads]
    rfl

theorem readLine_ret (reads : Reads read e) :
    readLine read (Stmt.ret e).head.toList = some (.ret e.canonical) := by
  have chars : (Stmt.ret e).head.toList = returnWord ++ ' ' :: e.print.toList := by
    simp [Stmt.head, returnWord]
  rw [chars, readLine_marked (List.all_eq_true.1 (by decide)), readMarked, if_neg (by decide),
    if_neg (by decide), if_pos rfl, readWhole_print reads]
  rfl

theorem readLine_names {word : List Char} {form : List String → Stmt}
    (inner : word.all isInner = true)
    (marked : ∀ cs, readMarked read word cs = (readNames read cs).map form)
    (spellings : ∀ n ∈ names, IsSpelling n) (reads : ∀ e ∈ asExprs names, Reads read e) :
    readLine read (word ++ ' ' :: (commaSeparated names).toList) = some (form names) := by
  rw [readLine_marked (List.all_eq_true.1 inner), marked, readNames_commaSeparated spellings reads]
  rfl

theorem header_chars {n : String} {body : List Stmt} :
    (Stmt.function n names body).head.toList =
      headerWord ++ ' ' :: ((Expr.call n (asExprs names)).print.toList ++ [':']) := by
  rw [Expr.print_call_append, (asExprs_facts names).1]
  simp [Stmt.head, headerWord]

theorem readLine_function {n : String} {body : List Stmt}
    (reads : Reads read (.call n (asExprs names))) :
    readLine read (Stmt.function n names body).head.toList = some (.function n names []) := by
  obtain ⟨-, same, taken⟩ := asExprs_facts names
  rw [header_chars, readLine_marked (List.all_eq_true.1 (by decide)), readMarked,
    if_neg (by decide), if_neg (by decide), if_neg (by decide), if_pos rfl, readHeader,
    reads _ (atEnd_cons (by decide) []), Expr.canonical, same]
  simp [taken]

theorem length_le_append (front back : String) :
    back.toList.length ≤ (front ++ back).toList.length := by
  rw [String.toList_append, List.length_append]
  exact Nat.le_add_left _ _

theorem readLine_head (readable : s.Readable)
    (reads : ∀ e : Expr, e.Readable → e.print.toList.length ≤ s.head.toList.length →
      Reads read e) : readLine read s.head.toList = some s.opened := by
  have listed : ∀ names : List String, (∀ n ∈ names, IsSpelling n) →
      (commaSeparated names).toList.length ≤ s.head.toList.length →
        ∀ e ∈ asExprs names, Reads read e := by
    intro names spellings inside e member
    have short := (Expr.length_items (asExprs names)).2 e member
    rw [(asExprs_facts names).1] at short
    have readable := Expr.allReadable_iff.1 (allReadable_asExprs spellings) e member
    exact reads e readable (Nat.le_trans short inside)
  cases s with
  | assign name value =>
    exact readLine_assign readable.1 (reads value readable.2 (length_le_append _ _))
  | augment name op value =>
    exact readLine_augment readable.1 (reads value readable.2 (length_le_append _ _))
  | expression value =>
    exact readLine_expression readable (reads value readable (Nat.le_refl _))
  | ret value => exact readLine_ret (reads value readable (length_le_append _ _))
  | globals names =>
    have chars : (Stmt.globals names).head.toList =
        globalWord ++ ' ' :: (commaSeparated names).toList := by
      simp [Stmt.head, globalWord]
    rw [chars]
    exact readLine_names (by decide) (fun cs => if_pos rfl) readable
      (listed names readable (length_le_append _ _))
  | nonlocals names =>
    have chars : (Stmt.nonlocals names).head.toList =
        nonlocalWord ++ ' ' :: (commaSeparated names).toList := by
      simp [Stmt.head, nonlocalWord]
    rw [chars]
    exact readLine_names (by decide) (fun cs => (if_neg (by decide)).trans (if_pos rfl)) readable
      (listed names readable (length_le_append _ _))
  | pass => rfl
  | function name parameters body =>
    refine readLine_function (reads _ ⟨readable.1, allReadable_asExprs readable.2.1⟩ ?_)
    rw [header_chars]
    simp only [List.length_append, List.length_cons]
    omega

end Head

section Lines

variable {float? : List Char → Option Float} {width depth : Nat} {s : Stmt} {block : List Stmt}
  {later : List (Nat × Stmt)} {more : List (List Char)}

theorem indented_split {text : String} (positive : 0 < width)
    (starts : ∃ c rest, text.toList = c :: rest ∧ c ≠ ' ') :
    ((indented width depth text).toList.takeWhile (· == ' ')).length / width = depth ∧
      (indented width depth text).toList.dropWhile (· == ' ') = text.toList := by
  obtain ⟨c, rest, same, solid⟩ := starts
  have spaces : ∀ d ∈ List.replicate (depth * width) ' ', (d == ' ') = true := by
    intro d member
    rw [List.eq_of_mem_replicate member]
    rfl
  have chars : (indented width depth text).toList =
      List.replicate (depth * width) ' ' ++ c :: rest := by
    rw [indented, String.toList_append, String.toList_ofList, same]
  have stops : (c == ' ') = false := by simpa using solid
  rw [chars, List.takeWhile_append_of_pos spaces, List.dropWhile_append_of_pos spaces,
    List.takeWhile_cons_of_neg (by simp [stops]), List.dropWhile_cons_of_neg (by simp [stops]),
    List.append_nil, List.length_replicate, Nat.mul_div_cancel _ positive]
  exact ⟨rfl, same.symm⟩

-- Nothing that follows is deeper.
def Stops (depth : Nat) (later : List (Nat × Stmt)) : Prop := ∀ row ∈ later.head?, row.1 ≤ depth

theorem Stops.split (stops : Stops depth later) :
    later.takeWhile (depth < ·.1) = [] ∧ later.dropWhile (depth < ·.1) = later := by
  cases later with
  | nil => exact ⟨rfl, rfl⟩
  | cons row later =>
    have shallow : ¬ depth < row.1 := Nat.not_lt.2 (stops row rfl)
    simp [shallow]

theorem attach_simple (simple : s.isSimple = true) (stops : Stops depth later) :
    attach depth s.opened later = some ((depth, s.canonical) :: later) := by
  cases s with
  | function => cases simple
  | _ => simp [attach, Stmt.opened, Stmt.canonical, stops.split.1]

theorem attach_function {name : String} {parameters : List String} (filled : block ≠ [])
    (stops : Stops depth later) :
    attach depth (.function name parameters [])
        (block.map (fun s => (depth + 1, s.canonical)) ++ later) =
      some ((depth, .function name parameters (Stmt.canonicalAll block)) :: later) := by
  have deeper : ∀ row ∈ block.map (fun s => (depth + 1, s.canonical)),
      decide (depth < row.1) = true := by
    intro row member
    obtain ⟨s, -, rfl⟩ := List.mem_map.1 member
    exact decide_eq_true (Nat.lt_succ_self depth)
  unfold attach
  rw [List.takeWhile_append_of_pos deeper, List.dropWhile_append_of_pos deeper, stops.split.1,
    stops.split.2, List.append_nil, Stmt.canonicalAll_eq_map]
  simp [filled, Function.comp_def]

theorem readLines_cons (positive : 0 < width) (floats : ReadsFloats float?) (readable : s.Readable)
    (read : readLines float? width more = some later) :
    readLines float? width ((indented width depth s.head).toList :: more) =
      attach depth s.opened later := by
  obtain ⟨level, text⟩ := @indented_split width depth s.head positive
    (readable.printable depth).starts
  have taken := readLine_head readable fun e readable short =>
    Expr.read_print floats readable (Nat.lt_succ_of_le short)
  rw [readLines, read, text, level]
  simp [taken]

theorem readLines_simple (positive : 0 < width) (floats : ReadsFloats float?)
    (simple : s.isSimple = true) (readable : s.Readable) (stops : Stops depth later)
    (read : readLines float? width more = some later) :
    readLines float? width ((s.lines width depth).map String.toList ++ more) =
      some ((depth, s.canonical) :: later) := by
  rw [Stmt.lines_simple simple]
  exact (readLines_cons positive floats readable read).trans (attach_simple simple stops)

-- What is read of the lines of a statement is the statement, in front of what is read of the lines
-- that follow.
mutual

theorem readLines_lines (positive : 0 < width) (floats : ReadsFloats float?) : ∀ (s : Stmt),
    s.Readable → ∀ {depth : Nat} {later : List (Nat × Stmt)} {more : List (List Char)},
      Stops depth later → readLines float? width more = some later →
      readLines float? width ((s.lines width depth).map String.toList ++ more) =
        some ((depth, s.canonical) :: later)
  | .function name parameters body => by
    intro readable depth later more stops read
    have deeper : Stops (depth + 1) later := fun row first => Nat.le_succ_of_le (stops row first)
    have inner := readLines_allLines positive floats body readable.2.2.2 deeper read
    exact (readLines_cons positive floats readable inner).trans
      (attach_function readable.2.2.1 stops)
  | .assign .. | .augment .. | .expression .. | .ret .. | .globals .. | .nonlocals .. | .pass =>
    fun readable => readLines_simple positive floats rfl readable

theorem readLines_allLines (positive : 0 < width) (floats : ReadsFloats float?) :
    ∀ (block : List Stmt), Stmt.AllReadable block →
      ∀ {depth : Nat} {later : List (Nat × Stmt)} {more : List (List Char)},
      Stops depth later → readLines float? width more = some later →
      readLines float? width ((Stmt.allLines width depth block).map String.toList ++ more) =
        some (block.map (fun s => (depth, s.canonical)) ++ later)
  | [] => fun _ _ _ _ _ read => read
  | s :: block => by
    intro readable depth later more stops read
    have rest := readLines_allLines positive floats block readable.2 stops read
    have level : Stops depth (block.map (fun s => (depth, s.canonical)) ++ later) := by
      cases block with
      | nil => exact stops
      | cons next block =>
        intro row first
        cases first
        exact Nat.le_refl _
    rw [Stmt.allLines, List.map_append, List.append_assoc]
    exact readLines_lines positive floats s readable.1 level rest

end

end Lines

section Text

variable {width depth : Nat} {lines sections : List String} {body : List Stmt} {line : String}

theorem textLines_append (first second : List Char) :
    textLines (first ++ '\n' :: second) = textLines first ++ textLines second := by
  unfold textLines
  rw [List.splitOnP_append_cons first second rfl, List.filter_append]

-- A line that is found again in a text.
structure IsLine (line : String) : Prop where
  filled : line.toList ≠ []
  unbroken : '\n' ∉ line.toList

theorem IsLine.textLines (isLine : IsLine line) : textLines line.toList = [line.toList] := by
  have inside : ∀ c ∈ line.toList, (c == '\n') = false := by
    intro c member
    simpa using fun same : c = '\n' => isLine.unbroken (same ▸ member)
  unfold Target.textLines
  rw [List.splitOnP_eq_singleton inside]
  simp [isLine.filled]

theorem textLines_intercalate (all : ∀ line ∈ lines, IsLine line) :
    textLines (String.intercalate "\n" lines).toList = lines.map String.toList := by
  induction lines with
  | nil => rfl
  | cons line lines ih =>
    obtain ⟨here, others⟩ := List.forall_mem_cons.1 all
    cases lines with
    | nil => simpa using here.textLines
    | cons next lines =>
      have chars : (String.intercalate "\n" (line :: next :: lines)).toList =
          line.toList ++ '\n' :: (String.intercalate "\n" (next :: lines)).toList := by
        simp [String.intercalate_cons_cons]
      rw [chars, textLines_append, here.textLines, ih others]
      rfl

theorem textLines_join (sections : List String) :
    textLines (Script.join sections).toList =
      sections.flatMap fun text => textLines text.toList := by
  have closed : ∀ text : String, textLines (text ++ "\n").toList = textLines text.toList := by
    intro text
    have chars : (text ++ "\n").toList = text.toList ++ '\n' :: [] := by simp
    rw [chars, textLines_append]
    exact List.append_nil _
  have joined : ∀ texts : List String,
      textLines (String.intercalate "\n\n" texts).toList =
        texts.flatMap fun text => textLines text.toList := by
    intro texts
    induction texts with
    | nil => rfl
    | cons text texts ih =>
      cases texts with
      | nil => simp
      | cons next texts =>
        have chars : (String.intercalate "\n\n" (text :: next :: texts)).toList =
            text.toList ++ '\n' :: ([] ++ '\n' ::
              (String.intercalate "\n\n" (next :: texts)).toList) := by
          simp [String.intercalate_cons_cons]
        rw [chars, textLines_append, textLines_append, ih]
        rfl
  rw [Script.join, closed, joined]
  induction sections with
  | nil => rfl
  | cons text sections ih =>
    by_cases empty : text = ""
    · subst empty
      rw [List.filter_cons_of_neg (by simp), ih]
      rfl
    · rw [List.filter_cons_of_pos (by simpa using empty), List.flatMap_cons, ih, List.flatMap_cons]

theorem indented_isLine {s : Stmt} (readable : s.Readable) :
    IsLine (indented width depth s.head) := by
  obtain ⟨⟨unbroken, -⟩, c, rest, starts, -⟩ := readable.printable depth
  have chars : (indented width depth s.head).toList =
      List.replicate (depth * width) ' ' ++ s.head.toList := by
    rw [indented, String.toList_append, String.toList_ofList]
  have starts : s.head.toList = c :: rest := starts
  refine ⟨?_, ?_⟩
  · rw [chars, starts]
    exact List.append_ne_nil_of_right_ne_nil _ (List.cons_ne_nil _ _)
  · rw [chars]
    intro member
    rcases List.mem_append.1 member with space | member
    · cases List.eq_of_mem_replicate space
    · exact unbroken member

mutual

theorem Stmt.lines_areLines : ∀ (s : Stmt), s.Readable → ∀ depth,
    ∀ line ∈ s.lines width depth, IsLine line
  | .function _ _ body => fun readable depth =>
    List.forall_mem_cons.2 ⟨indented_isLine readable,
      Stmt.allLines_areLines body readable.2.2.2 (depth + 1)⟩
  | .assign .. | .augment .. | .expression .. | .ret .. | .globals .. | .nonlocals .. | .pass =>
    fun readable _ => List.forall_mem_singleton.2 (indented_isLine readable)

theorem Stmt.allLines_areLines : ∀ (block : List Stmt), Stmt.AllReadable block → ∀ depth,
    ∀ line ∈ Stmt.allLines width depth block, IsLine line
  | [] => fun _ _ _ member => nomatch member
  | s :: block => fun readable depth => List.forall_mem_append.2
    ⟨s.lines_areLines readable.1 depth, Stmt.allLines_areLines block readable.2 depth⟩

end

theorem textLines_scriptText (options : CompileOptions) (readable : Stmt.AllReadable body) :
    textLines (scriptText options body).toList =
      textLines (Script.preamble (max options.indentWidth 1)).toList ++
        ((Stmt.allLines (max options.indentWidth 1) 0 body).map String.toList ++
          if options.entryGuard then
            textLines (Script.entryGuard (max options.indentWidth 1)).toList
          else []) := by
  have lines := textLines_intercalate
    (@Stmt.allLines_areLines (max options.indentWidth 1) body readable 0)
  unfold scriptText
  dsimp only
  rw [textLines_join, List.flatMap_append, List.flatMap_cons, List.flatMap_cons, lines]
  cases options.entryGuard <;> simp

-- The text of a script says which statements it was written from.
theorem readScript_scriptText {float? : List Char → Option Float} (floats : ReadsFloats float?)
    (options : CompileOptions) (readable : Stmt.AllReadable body) :
    readScript float? options (scriptText options body) = some (Stmt.canonicalAll body) := by
  have positive : 0 < max options.indentWidth 1 := by omega
  have nothing : readLines float? (max options.indentWidth 1) [] = some [] := rfl
  have stops : Stops 0 [] := fun row first => nomatch first
  have taken := readLines_allLines positive floats body readable stops nothing
  rw [List.append_nil, List.append_nil] at taken
  unfold readScript
  dsimp only
  rw [textLines_scriptText options readable, List.isPrefixOf?_eq_some_iff_append_eq.2 rfl,
    Option.bind_eq_bind, Option.bind_some, List.isSuffixOf?_eq_some_iff_append_eq.2 rfl,
    Option.bind_eq_bind, Option.bind_some, taken]
  simp [Stmt.canonicalAll_eq_map]

end Text

end Scriptlet.Target
