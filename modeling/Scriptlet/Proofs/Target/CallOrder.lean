import Scriptlet.Proofs.Binding.Nesting
import Scriptlet.Proofs.Target.Calls
import Scriptlet.Proofs.Target.Indentation

/-!
Calls in the text of generated code. Whoever reads a line from left to right, past what stands in
string literals, finds a name right before a parenthesis for each call of the statement that the
line comes from, in the order of the source, and besides these only helpers.
-/

namespace Scriptlet

namespace Target

-- Where a reader is: in code, with the word that was just read, in a string literal, or after a
-- backslash in one.
inductive Reading where
  | code (word : List Char)
  | text
  | escape

namespace Reading

def next : Reading → Char → Reading
  | code word, c =>
    if c = '"' then text else if Pattern.isWordChar c then code (word ++ [c]) else code []
  | text, c => if c = '\\' then escape else if c = '"' then code [] else text
  | escape, _ => text

-- The function of the program whose call a character opens.
def opened : Reading → Char → List String
  | code word, c =>
    if c = '(' ∧ word ≠ [] ∧ String.ofList word ∉ helperNames then [String.ofList word] else []
  | _, _ => []

def after (r : Reading) (cs : List Char) : Reading := cs.foldl next r

def called : Reading → List Char → List String
  | _, [] => []
  | r, c :: cs => r.opened c ++ (r.next c).called cs

theorem called_append (r : Reading) (cs ds : List Char) :
    r.called (cs ++ ds) = r.called cs ++ (r.after cs).called ds := by
  induction cs generalizing r with
  | nil => rfl
  | cons c cs ih => rw [List.cons_append, called, called, ih, List.append_assoc]; rfl

theorem after_append (r : Reading) (cs ds : List Char) :
    r.after (cs ++ ds) = (r.after cs).after ds := List.foldl_append

end Reading

-- The functions of the program that a line calls. The header of a function calls none.
def calledIn (line : String) : List String :=
  let code := line.toList.dropWhile (· == ' ')
  if code.takeWhile (· != ' ') = headerWord then [] else (Reading.code []).called code

-- Read from the start, the text calls these functions and leaves this word.
structure Scans (text : String) (functions : List String) (word : List Char) : Prop where
  called : (Reading.code []).called text.toList = functions
  after : (Reading.code []).after text.toList = .code word

-- A character that ends a word and opens no call.
def ends (c : Char) : Bool := !Pattern.isWordChar c && c != '('

-- Text that starts with such a character.
def Closing (text : String) : Prop := text.toList.head?.any ends = true

instance : DecidablePred Closing := fun _ => inferInstanceAs (Decidable (_ = true))

namespace Scans

variable {s t : String} {fs gs : List String} {w v : List Char}

theorem append (first : Scans s fs []) (second : Scans t gs w) : Scans (s ++ t) (fs ++ gs) w where
  called := by
    rw [String.toList_append, Reading.called_append, first.called, first.after, second.called]
  after := by rw [String.toList_append, Reading.after_append, first.after, second.after]

theorem close (first : Scans s fs w) (closing : Closing t) (second : Scans t gs v) :
    Scans (s ++ t) (fs ++ gs) v := by
  obtain ⟨c, cs, starts, ending⟩ : ∃ c cs, t.toList = c :: cs ∧ ends c = true := by
    unfold Closing at closing
    cases chars : t.toList with
    | nil => simp [chars] at closing
    | cons c cs => exact ⟨c, cs, rfl, by simpa [chars] using closing⟩
  obtain ⟨other, apart⟩ : Pattern.isWordChar c = false ∧ c ≠ '(' := by
    simpa [ends] using ending
  have opened : (Reading.code w).opened c = (Reading.code []).opened c := by
    simp [Reading.opened, apart]
  have next : (Reading.code w).next c = (Reading.code []).next c := by
    simp [Reading.next, other]
  have called := second.called
  have after := second.after
  rw [starts] at called after
  constructor
  · rw [String.toList_append, Reading.called_append, first.called, first.after, starts,
      Reading.called, opened, next, ← called]
    rfl
  · rw [String.toList_append, Reading.after_append, first.after, starts, ← after]
    simp [Reading.after, next]

theorem around (opening : Scans s [] []) (inner : Scans t fs w) {closing : String}
    (closes : Closing closing) (rest : Scans closing [] v) :
    Scans (s ++ t ++ closing) fs v := by
  simpa using (opening.append inner).close closes rest

end Scans

-- A name of generated code.
structure Lettered (n : String) : Prop where
  filled : n.toList ≠ []
  chars : ∀ c ∈ n.toList, Pattern.isWordChar c = true

theorem Reading.code_quiet {cs : List Char} (quiet : ∀ c ∈ cs, c ≠ '"' ∧ c ≠ '(')
    (word : List Char) :
    (code word).called cs = [] ∧ ∃ rest, (code word).after cs = code rest := by
  induction cs generalizing word with
  | nil => exact ⟨rfl, word, rfl⟩
  | cons c cs ih =>
    obtain ⟨⟨quote, paren⟩, others⟩ := List.forall_mem_cons.1 quiet
    have opened : (code word).opened c = [] := by simp [Reading.opened, paren]
    obtain ⟨longer, next⟩ : ∃ longer, (code word).next c = code longer := by
      rw [Reading.next, if_neg quote]
      split
      · exact ⟨_, rfl⟩
      · exact ⟨_, rfl⟩
    rw [Reading.called, opened, next]
    obtain ⟨called, rest, after⟩ := ih others longer
    refine ⟨called, rest, ?_⟩
    rw [Reading.after, List.foldl_cons, next]
    exact after

theorem scans_quiet {text : String} (quiet : ∀ c ∈ text.toList, c ≠ '"' ∧ c ≠ '(') :
    ∃ w, Scans text [] w := by
  obtain ⟨called, w, after⟩ := Reading.code_quiet quiet []
  exact ⟨w, called, after⟩

theorem quiet_of_class {text : String} {allowed : Char → Bool}
    (chars : ∀ c ∈ text.toList, allowed c = true) (quote : allowed '"' = false)
    (paren : allowed '(' = false) : ∀ c ∈ text.toList, c ≠ '"' ∧ c ≠ '(' := by
  intro c member
  have inside := chars c member
  constructor
  · rintro rfl
    exact Bool.false_ne_true (quote.symm.trans inside)
  · rintro rfl
    exact Bool.false_ne_true (paren.symm.trans inside)

theorem Lettered.quiet {n : String} (lettered : Lettered n) :
    ∀ c ∈ n.toList, c ≠ '"' ∧ c ≠ '(' :=
  quiet_of_class lettered.chars (by decide) (by decide)

theorem IsNumeral.quiet {text : String} (numeral : IsNumeral text) :
    ∀ c ∈ text.toList, c ≠ '"' ∧ c ≠ '(' :=
  quiet_of_class numeral.chars (by decide) (by decide)

theorem Reading.code_word {cs : List Char} (chars : ∀ c ∈ cs, Pattern.isWordChar c = true)
    (word : List Char) : (code word).after cs = code (word ++ cs) := by
  induction cs generalizing word with
  | nil => rw [List.append_nil]; rfl
  | cons c cs ih =>
    obtain ⟨letter, others⟩ := List.forall_mem_cons.1 chars
    have solid : c ≠ '"' := by
      rintro rfl
      exact absurd letter (by decide)
    have next : (code word).next c = code (word ++ [c]) := by
      rw [Reading.next, if_neg solid, if_pos letter]
    rw [Reading.after, List.foldl_cons, next, ← Reading.after, ih others, List.append_assoc]
    rfl

theorem Lettered.scans_call {n : String} (lettered : Lettered n) :
    Scans (n ++ "(") (if n ∈ helperNames then [] else [n]) [] := by
  have word : (Reading.code []).after n.toList = .code n.toList :=
    Reading.code_word lettered.chars []
  obtain ⟨called, -⟩ := Reading.code_quiet lettered.quiet []
  constructor
  · rw [String.toList_append, Reading.called_append, called, word]
    simp [Reading.called, Reading.opened, lettered.filled]
  · rw [String.toList_append, Reading.after_append, word]
    rfl

theorem Quoting.cases {c : Char} {written : List Char} (quoting : Quoting c written) :
    written = [c] ∧ c ≠ '"' ∧ c ≠ '\\' ∨
      ∃ d ds, written = '\\' :: d :: ds ∧ ∀ e ∈ ds, e ≠ '"' ∧ e ≠ '\\' := by
  cases quoting with
  | plain shown free => exact .inl ⟨rfl, free⟩
  | short listed => exact .inr ⟨_, [], rfl, List.forall_mem_nil _⟩
  | code small control other =>
    have digit : ∀ n < 16, n.digitChar ≠ '"' ∧ n.digitChar ≠ '\\' := by decide
    exact .inr ⟨_, _, rfl, List.forall_mem_cons.2
      ⟨digit _ (by omega), List.forall_mem_singleton.2 (digit _ (by omega))⟩⟩

theorem Reading.text_plain {cs : List Char} (plain : ∀ c ∈ cs, c ≠ '"' ∧ c ≠ '\\') :
    text.called cs = [] ∧ text.after cs = text := by
  induction cs with
  | nil => exact ⟨rfl, rfl⟩
  | cons c cs ih =>
    obtain ⟨⟨quote, backslash⟩, others⟩ := List.forall_mem_cons.1 plain
    have next : text.next c = text := by rw [Reading.next, if_neg backslash, if_neg quote]
    rw [Reading.called, Reading.after, List.foldl_cons, next]
    exact ih others

theorem Reading.text_stringChar (c : Char) :
    text.called (stringChar c) = [] ∧ text.after (stringChar c) = text := by
  rcases (stringChar_quoting c).cases with ⟨same, quote, backslash⟩ | ⟨d, ds, same, plain⟩
  · rw [same]
    exact text_plain (List.forall_mem_singleton.2 ⟨quote, backslash⟩)
  · obtain ⟨called, after⟩ := text_plain plain
    rw [same]
    exact ⟨called, after⟩

theorem scans_stringLiteral (s : String) : Scans (stringLiteral s) [] [] := by
  have inside : ∀ cs : List Char, Reading.text.called (cs.flatMap stringChar) = [] ∧
      Reading.text.after (cs.flatMap stringChar) = .text := by
    intro cs
    induction cs with
    | nil => exact ⟨rfl, rfl⟩
    | cons c cs ih =>
      obtain ⟨called, after⟩ := Reading.text_stringChar c
      rw [List.flatMap_cons, Reading.called_append, Reading.after_append, called, after]
      exact ih
  obtain ⟨called, after⟩ := inside s.toList
  have chars : (stringLiteral s).toList = ['"'] ++ s.toList.flatMap stringChar ++ ['"'] := by
    simp [stringLiteral]
  have opening : (Reading.code []).after ['"'] = .text := rfl
  constructor
  · rw [chars, Reading.called_append, Reading.called_append, Reading.after_append, opening, called,
      after]
    rfl
  · rw [chars, Reading.after_append, Reading.after_append, opening, after]
    rfl

-- The function that a call calls.
def Expr.function : Expr → String
  | .call function _ => function
  | _ => ""

-- The functions that a text calls, read from the start.
def calledBy (text : String) : List String := (Reading.code []).called text.toList

-- A text after which a reader is not inside a string literal.
def Complete (text : String) : Prop := ∃ w, Scans text (calledBy text) w

theorem Scans.complete {text : String} {fs : List String} {w : List Char}
    (scans : Scans text fs w) : Complete text ∧ calledBy text = fs :=
  ⟨⟨w, rfl, scans.after⟩, scans.called⟩

theorem scans_commaSeparated {items : List String} (each : ∀ item ∈ items, Complete item) :
    ∃ w, Scans (commaSeparated items) (items.flatMap calledBy) w := by
  unfold commaSeparated
  induction items with
  | nil => exact ⟨[], rfl, rfl⟩
  | cons item items ih =>
    obtain ⟨⟨w, here⟩, others⟩ := List.forall_mem_cons.1 each
    cases items with
    | nil => exact ⟨w, by simpa using here⟩
    | cons other items =>
      obtain ⟨v, rest⟩ := ih others
      have comma : Scans ", " [] [] := ⟨rfl, rfl⟩
      have separated := (here.close (by decide) comma).append rest
      refine ⟨v, ?_⟩
      rw [String.intercalate_cons_cons, List.flatMap_cons]
      simpa using separated

theorem Operator.scans (op : Operator) : Closing (" " ++ op.symbol ++ " ") ∧
    Scans (" " ++ op.symbol ++ " ") [] [] := by
  cases op with
  | arithmetic op => cases op <;> exact ⟨by decide, rfl, rfl⟩
  | comparison op => cases op <;> exact ⟨by decide, rfl, rfl⟩
  | bitOr => exact ⟨by decide, rfl, rfl⟩
  | bitAnd => exact ⟨by decide, rfl, rfl⟩

namespace Expr

theorem scans_around {e inner : Expr} {w : List Char} {fs : List String} (left right : String)
    (same : e.print = left ++ inner.print ++ right) (opening : Scans left [] [])
    (scans : Scans inner.print fs w) (closes : Closing right) (rest : Scans right [] []) :
    ∃ v, Scans e.print fs v := by
  rw [same]
  exact ⟨[], opening.around scans closes rest⟩

mutual

theorem print_scans : ∀ e : Expr, (∀ n ∈ e.names, Lettered n) →
    ∃ w, Scans e.print (e.calls.map function) w
  | .name _, lettered => scans_quiet (lettered _ (List.mem_singleton.2 rfl)).quiet
  | .integer n, _ => scans_quiet (Integer.text_isNumeral n).quiet
  | .float x, _ => scans_quiet (Point.Layout.write_isNumeral x).quiet
  | .boolean true, _ | .boolean false, _ | .null, _ => ⟨_, rfl, rfl⟩
  | .string s, _ => ⟨[], scans_stringLiteral s⟩
  | .call f arguments, lettered => by
    obtain ⟨named, inside⟩ := List.forall_mem_cons.1 lettered
    obtain ⟨complete, called⟩ := printAll_scans arguments inside
    obtain ⟨w, listed⟩ := scans_commaSeparated complete
    rw [called] at listed
    have bracket : Scans ")" [] [] := ⟨rfl, rfl⟩
    have closed := (named.scans_call.append listed).close (by decide) bracket
    refine ⟨[], ?_⟩
    rw [print, calls, List.map_append]
    split
    · rename_i helper
      simpa [helper] using closed
    · rename_i apart
      simpa [apart, function] using closed
  | .list items, lettered => by
    obtain ⟨complete, called⟩ := printAll_scans items lettered
    obtain ⟨w, listed⟩ := scans_commaSeparated complete
    rw [called] at listed
    exact ⟨[], Scans.around (s := "[") ⟨rfl, rfl⟩ listed (by decide) ⟨rfl, rfl⟩⟩
  | .binary op left right, lettered => by
    obtain ⟨first, second⟩ := List.forall_mem_append.1 lettered
    obtain ⟨v, l⟩ := left.print_scans first
    obtain ⟨w, r⟩ := right.print_scans second
    obtain ⟨closes, between⟩ := op.scans
    have text : print (.binary op left right) =
        "(" ++ (left.print ++ (" " ++ op.symbol ++ " ") ++ right.print) ++ ")" := by
      simp only [print, String.append_assoc]
    have both := (l.close closes between).append r
    rw [List.append_nil, ← List.map_append] at both
    rw [text]
    exact ⟨[], Scans.around (s := "(") ⟨rfl, rfl⟩ both (by decide) ⟨rfl, rfl⟩⟩
  | .not operand, lettered => by
    obtain ⟨w, inner⟩ := operand.print_scans lettered
    exact scans_around "(not " ")" rfl ⟨rfl, rfl⟩ inner (by decide) ⟨rfl, rfl⟩
  | .negate operand, lettered => by
    obtain ⟨w, inner⟩ := operand.print_scans lettered
    exact scans_around "(-" ")" rfl ⟨rfl, rfl⟩ inner (by decide) ⟨rfl, rfl⟩
  | .grouped inner, lettered => by
    obtain ⟨w, inner⟩ := inner.print_scans lettered
    exact scans_around "(" ")" rfl ⟨rfl, rfl⟩ inner (by decide) ⟨rfl, rfl⟩
  | .falseAfter evaluated, lettered => by
    obtain ⟨complete, called⟩ := printAll_scans evaluated lettered
    have all : ∀ text ∈ printAll evaluated ++ ["False"], Complete text :=
      List.forall_mem_append.2 ⟨complete, List.forall_mem_singleton.2 ⟨_, rfl, rfl⟩⟩
    obtain ⟨w, listed⟩ := scans_commaSeparated all
    have silent : ["False"].flatMap calledBy = [] := rfl
    rw [List.flatMap_append, called, silent, List.append_nil] at listed
    exact ⟨[], Scans.around (s := "(") ⟨rfl, rfl⟩ listed (by decide) ⟨rfl, rfl⟩⟩
  | .yesNo condition, lettered => by
    obtain ⟨w, inner⟩ := condition.print_scans lettered
    exact scans_around "(\"YES\" if " " else \"NO\")" rfl ⟨rfl, rfl⟩ inner (by decide) ⟨rfl, rfl⟩

theorem printAll_scans : ∀ es : List Expr, (∀ n ∈ namesAll es, Lettered n) →
    (∀ text ∈ printAll es, Complete text) ∧
      (printAll es).flatMap calledBy = (callsAll es).map function
  | [], _ => ⟨List.forall_mem_nil _, rfl⟩
  | e :: es, lettered => by
    obtain ⟨first, others⟩ := List.forall_mem_append.1 lettered
    obtain ⟨w, scans⟩ := e.print_scans first
    obtain ⟨complete, called⟩ := scans.complete
    obtain ⟨rest, more⟩ := printAll_scans es others
    refine ⟨List.forall_mem_cons.2 ⟨complete, rest⟩, ?_⟩
    rw [printAll, callsAll, List.flatMap_cons, List.map_append, called, more]

end

end Expr

namespace Stmt

variable {s : Stmt} {width depth : Nat}

theorem scans_value {value : Expr} {front : String} (quiet : Scans front [] [])
    (lettered : ∀ n ∈ value.names, Lettered n) :
    ∃ w, Scans (front ++ value.print) (value.calls.map Expr.function) w := by
  obtain ⟨w, scans⟩ := value.print_scans lettered
  exact ⟨w, quiet.append scans⟩

theorem scans_names {names : List String} {front : String} (quiet : Scans front [] [])
    (lettered : ∀ n ∈ names, Lettered n) : ∃ w, Scans (front ++ commaSeparated names) [] w := by
  have each : ∀ n ∈ names, Complete n ∧ calledBy n = [] := by
    intro n member
    obtain ⟨w, scans⟩ := scans_quiet (lettered n member).quiet
    exact scans.complete
  obtain ⟨w, scans⟩ := scans_commaSeparated fun n member => (each n member).1
  rw [List.flatMap_eq_nil_iff.2 fun n member => (each n member).2] at scans
  exact ⟨w, quiet.append scans⟩

theorem head_scans (simple : s.isSimple = true) (lettered : ∀ n ∈ s.ownNames, Lettered n) :
    ∃ w, Scans s.head (s.calls.map Expr.function) w := by
  cases s with
  | assign name value =>
    obtain ⟨named, inside⟩ := List.forall_mem_cons.1 lettered
    obtain ⟨w, scans⟩ := scans_quiet named.quiet
    have equals : Scans " = " [] [] := ⟨rfl, rfl⟩
    exact scans_value (scans.close (by decide) equals) inside
  | augment name op value =>
    obtain ⟨named, inside⟩ := List.forall_mem_cons.1 lettered
    obtain ⟨w, scans⟩ := scans_quiet named.quiet
    have equals : Closing (" " ++ op.symbol ++ "= ") ∧ Scans (" " ++ op.symbol ++ "= ") [] [] := by
      cases op <;> exact ⟨by decide, rfl, rfl⟩
    have text : head (.augment name op value) =
        name ++ (" " ++ op.symbol ++ "= ") ++ value.print := by
      simp only [head, String.append_assoc]
    rw [text]
    exact scans_value (scans.close equals.1 equals.2) inside
  | expression value => exact value.print_scans lettered
  | ret value => exact scans_value ⟨rfl, rfl⟩ lettered
  | globals names => exact scans_names ⟨rfl, rfl⟩ lettered
  | nonlocals names => exact scans_names ⟨rfl, rfl⟩ lettered
  | pass => exact ⟨_, rfl, rfl⟩
  | function => cases simple

end Stmt

theorem calledIn_indented {text : String} (starts : ∃ c rest, text.toList = c :: rest ∧ c ≠ ' ')
    (width depth : Nat) : calledIn (indented width depth text) =
      if firstWord text = headerWord then [] else calledBy text := by
  obtain ⟨c, rest, chars, solid⟩ := starts
  have code : (indented width depth text).toList.dropWhile (· == ' ') = text.toList := by
    rw [indented, String.toList_append, String.toList_ofList, chars,
      List.dropWhile_append_of_pos fun d member => by
        rw [List.eq_of_mem_replicate member]
        rfl]
    exact List.dropWhile_cons_of_neg (by simpa using solid)
  rw [calledIn, code]
  rfl

namespace Stmt

variable {s : Stmt} {width depth : Nat}

theorem line_called {names : List String} (all : AllNames names) (simple : s.isSimple = true)
    (spelled : ∀ n ∈ s.ownNames, Spelled names n) :
    calledIn ((s.line depth).print width) = s.calls.map Expr.function := by
  have writable : s.Writable := ⟨simple, fun n occurs => (spelled n occurs).isWord all⟩
  have plain : firstWord (s.line depth).text ≠ headerWord := writable.opens.2
  obtain ⟨w, scans⟩ := head_scans simple fun n occurs =>
    ⟨((spelled n occurs).isWord all).filled, (spelled n occurs).chars all⟩
  rw [Line.print, calledIn_indented writable.printable.starts, if_neg plain]
  exact scans.called

theorem lines_called {names : List String} {block : List Stmt} (all : AllNames names)
    (simple : ∀ s ∈ block, s.isSimple = true)
    (spelled : ∀ s ∈ block, ∀ n ∈ s.ownNames, Spelled names n) :
    ((block.map (line depth)).map (Line.print width)).flatMap calledIn =
      (callsAll block).map Expr.function := by
  induction block with
  | nil => rfl
  | cons s block ih =>
    obtain ⟨first, others⟩ := List.forall_mem_cons.1 simple
    obtain ⟨named, rest⟩ := List.forall_mem_cons.1 spelled
    rw [List.map_cons, List.map_cons, List.flatMap_cons, line_called all first named,
      ih others rest, callsAll, List.map_append]

theorem function_called {name : String} {parameters : List String} {body : List Stmt} :
    calledIn ((line depth (.function name parameters body)).print width) = [] := by
  have header : firstWord (line depth (.function name parameters body)).text = headerWord :=
    function_isHeader
  rw [Line.print, calledIn_indented (starts_of_firstWord (by rw [header]; decide)), if_pos header]

end Stmt

end Target

open Target

section Statements

variable {a : Analysis} {width : Nat}

theorem Expr.function_of_calls {e call : Expr} (member : call ∈ e.calls) :
    (call.lower a).function = spell call.callee := by
  induction e using induction_on_parts with
  | whole e ih =>
    rw [e.calls_eq] at member
    rcases List.mem_append.1 member with own | inside
    · cases e with
      | call => cases List.mem_singleton.1 own; rfl
      | _ => cases own
    · obtain ⟨part, below, listed⟩ := List.mem_flatMap.1 inside
      exact ih part below listed

theorem functions_of_calls (roots : List Expr) :
    (((roots.flatMap Expr.calls).map (Expr.lower a)).map Target.Expr.function) =
      (roots.flatMap Expr.calls).map fun call => spell call.callee := by
  rw [List.map_map]
  refine List.map_congr_left fun call member => ?_
  obtain ⟨root, -, listed⟩ := List.mem_flatMap.1 member
  exact Expr.function_of_calls listed

theorem Stmt.plain_called {s : Stmt} (plain : s.defined = []) (enclosing : List (List String))
    (depth : Nat) (names : AllNames s.allNames) (callable : ∀ root ∈ s.roots, root.Callable a) :
    (Target.Stmt.allLines width depth (s.lower a enclosing)).flatMap calledIn =
      s.calls.map fun call => spell call.callee := by
  have own : AllNames s.ownNames := fun x listed => names x (ownNames_subset listed)
  rw [Target.Stmt.allLines_simple (lower_simple plain),
    Target.Stmt.lines_called own (lower_simple plain) s.lower_ownNames,
    s.lower_calls enclosing callable]
  exact functions_of_calls s.roots

theorem function_lines_called {enclosing : List (List String)} {depth : Nat} {span nameSpan : Span}
    {name : String} {parameters : List Parameter} {body : List Stmt} (named : IsName name) :
    ((((Stmt.function span name nameSpan parameters body).lower a enclosing).map
      (Target.Stmt.line depth)).map (Line.print width)).flatMap calledIn = [] := by
  have listed : calledIn (((Target.Stmt.globals [spell name]).line depth).print width) = [] := by
    refine Target.Stmt.line_called (AllNames.cons named .nil) rfl fun n occurs => .inl ?_
    exact occurs
  rw [Stmt.lower_function, List.map_append, List.map_append, List.flatMap_append]
  have header : calledIn (((definition a enclosing name parameters body).statement.line depth).print
      width) = [] := Target.Stmt.function_called
  split <;> simp [listed, header]

theorem bodyHeader_called {enclosing : List (List String)} {locals : List String} {depth : Nat}
    {body : List Stmt} (names : AllNames (Stmt.allNamesAll body)) :
    (((bodyHeader enclosing locals body).map (Target.Stmt.line depth)).map
      (Line.print width)).flatMap calledIn = [] := by
  rw [Target.Stmt.lines_called names bodyHeader_simple fun line => bodyHeader_spelled,
    bodyHeader_calls]
  rfl

mutual

theorem Stmt.lower_called : ∀ (s : Stmt) (enclosing : List (List String)) (depth : Nat),
    AllNames s.allNames → (∀ root ∈ s.roots, root.Callable a) →
      (Target.Stmt.allLines width depth (s.lower a enclosing)).flatMap calledIn =
        s.calls.map fun call => spell call.callee
  | .declaration .., enclosing, depth, names, callable =>
    plain_called rfl enclosing depth names callable
  | .assignment .., enclosing, depth, names, callable =>
    plain_called rfl enclosing depth names callable
  | .output .., enclosing, depth, names, callable =>
    plain_called rfl enclosing depth names callable
  | .throw .., enclosing, depth, names, callable =>
    plain_called rfl enclosing depth names callable
  | .expression .., enclosing, depth, names, callable =>
    plain_called rfl enclosing depth names callable
  | .function span name nameSpan parameters body, enclosing, depth, names, callable => by
    obtain ⟨own, inside⟩ := List.forall_mem_append.1 names
    have inner := Stmt.lowerAll_called body (localNames parameters body :: enclosing) (depth + 1)
      inside callable
    rw [Stmt.allLines_function, List.flatMap_append, List.flatMap_append, inner,
      function_lines_called (own name List.mem_cons_self), bodyHeader_called inside]
    rfl

theorem Stmt.lowerAll_called : ∀ (body : List Stmt) (enclosing : List (List String)) (depth : Nat),
    AllNames (Stmt.allNamesAll body) → (∀ root ∈ Stmt.rootsAll body, root.Callable a) →
      (Target.Stmt.allLines width depth (Stmt.lowerAll a enclosing body)).flatMap calledIn =
        ((Stmt.rootsAll body).flatMap Expr.calls).map fun call => spell call.callee
  | [], _, _, _, _ => rfl
  | s :: rest, enclosing, depth, names, callable => by
    obtain ⟨here, others⟩ := List.forall_mem_append.1 names
    obtain ⟨first, later⟩ := List.forall_mem_append.1 callable
    rw [Stmt.lowerAll, Target.Stmt.allLines_append, List.flatMap_append,
      s.lower_called enclosing depth here first,
      Stmt.lowerAll_called rest enclosing depth others later, Stmt.rootsAll, List.flatMap_append,
      List.map_append]
    rfl

end

end Statements

theorem Stmt.mem_rootsAll {body : List Stmt} {root : Expr} :
    root ∈ Stmt.rootsAll body ↔ ∃ s ∈ body, root ∈ s.roots := by
  induction body with
  | nil => simp [Stmt.rootsAll]
  | cons s rest ih => simp [Stmt.rootsAll, ih]

namespace Level

variable {levels : List Level} {s : Stmt}

theorem roots_closeAll {root : Expr} (stands : root ∈ s.roots) :
    root ∈ (closeAll levels s).roots := by
  induction levels generalizing s with
  | nil => exact stands
  | cons l outer ih =>
    refine ih (Stmt.mem_rootsAll.2 ⟨s, ?_, stands⟩)
    exact List.mem_append_right _ List.mem_cons_self

end Level

-- The calls of a program all stand in the generated code, in order, and nothing is written twice.
-- A place leaves out an operand only if there is no call in it.
theorem calls_rendered {source : String} {program : Program} {analysis : Analysis}
    (checked : check source = .ok (program, analysis)) :
    (∀ n ∈ program.nodes, ∃ drops,
      Framed n.ownFunction ((n.operands analysis drops).map (Expr.lower analysis))
        (n.lower analysis) ∧
      ∀ part ∈ n.parts, part ∉ n.operands analysis drops → part.calls = []) ∧
    (∀ e ∈ Stmt.rootsAll program.body, ∀ name op target, ∃ own kept written,
      (compound name op target (analysis.tag? e.id) (e.lower analysis)).Writes name written ∧
      Woven (own ++ kept) written ∧ own.Sublist [.name name] ∧
      (kept = [e.lower analysis] ∨ kept = [] ∧ e.calls = [])) ∧
    ∀ before levels s after, program.body = before ++ Level.closeAll levels s :: after →
      s.calls.Perm ((s.roots.flatMap Expr.nodes).filter Expr.isCall) ∧
      ∀ script : Script, script.analysis = analysis →
        Target.Stmt.callsAll (s.lower analysis script.enclosing) =
          s.calls.map (Expr.lower analysis) ∧
        ∃ lines, (script.emit s).lines = script.lines ++ lines ∧
          lines.flatMap calledIn = s.calls.map fun call => spell call.callee := by
  have callable := check_callable checked
  refine ⟨fun n inside => ?_, fun e stands name op target => ?_, ?_⟩
  · obtain ⟨root, stands, inside⟩ := List.mem_flatMap.1 inside
    obtain ⟨drops, framed⟩ := Expr.lower_framed analysis n
    refine ⟨drops, framed, fun part below gone => ?_⟩
    have dropped : kept drops (analysis.tag? part.id) = false := by
      simpa [Expr.operands, below] using gone
    exact (callable root stands).dropped inside below dropped
  · obtain ⟨own, written, writes, read, woven⟩ :=
      compound_woven name op target (analysis.tag? e.id) (e.lower analysis)
    refine ⟨own, _, written, writes, woven, read, ?_⟩
    unfold spared
    split
    · exact .inl rfl
    · rename_i dropped
      have tagged : analysis.tag? e.id = some .empty := by simpa [kept] using dropped
      exact .inr ⟨rfl, (callable e stands).silent e e.self_mem_nodes tagged⟩
  · intro before levels s after split
    have member : Level.closeAll levels s ∈ program.body := by simp [split]
    have own : ∀ root ∈ s.roots, root.Callable analysis := by
      intro root stands
      exact callable root (Stmt.mem_rootsAll.2 ⟨_, member, Level.roots_closeAll stands⟩)
    have names : AllNames s.allNames := by
      intro x mentioned
      exact ofSource_names (check_eq_ok.1 checked).1 x
        (Stmt.mem_allNamesAll.2 ⟨_, member, Level.allNames_closeAll mentioned⟩)
    refine ⟨s.calls_perm, ?_⟩
    rintro script rfl
    exact ⟨s.lower_calls _ own, _, rfl, s.lower_called _ _ names own⟩

-- A program that is not accepted: it calls a function that nothing defines, among operands that
-- are left out and a text that looks like a call.
def tangledSource : String :=
  "var e; func f(x) \x7b \x7d func g() \x7b \x7d show nope(f(\"f(\"), [g()]) + e - (e - f(2));"

theorem tangledSource_called : ∃ program analysis, check tangledSource = .ok (program, analysis) ∧
    analysis.accepted = false ∧ ∃ before s, program.body = before ++ [s] ∧
      ∀ script : Script, script.analysis = analysis → ∃ lines,
        (script.emit s).lines = script.lines ++ lines ∧
          lines.flatMap calledIn = ["nope", "f", "g", "f"] := by
  have found : ((check tangledSource).toOption.any fun result => !result.2.accepted &&
      decide (result.1.body.getLast?.map (fun s => s.calls.map fun call => spell call.callee) =
        some ["nope", "f", "g", "f"])) = true := by decide +kernel
  obtain ⟨⟨program, analysis⟩, checked, holds⟩ := ok_of_any found
  obtain ⟨rejected, called⟩ := Bool.and_eq_true_iff.1 holds
  obtain ⟨s, last, named⟩ := Option.map_eq_some_iff.1 (of_decide_eq_true called)
  obtain ⟨before, split⟩ := List.getLast?_eq_some_iff.1 last
  refine ⟨program, analysis, checked, by simpa using rejected, before, s, split, ?_⟩
  intro script same
  obtain ⟨-, -, placed⟩ := calls_rendered checked
  obtain ⟨-, lines, emitted, listed⟩ := (placed before [] s [] split).2 script same
  exact ⟨lines, emitted, listed.trans named⟩

end Scriptlet
