import Mathlib.Data.List.Chain
import Scriptlet.Proofs.Outcome
import Scriptlet.Proofs.Target.Printed
import Scriptlet.Proofs.Target.Texts

/-!
The layout of generated scripts. A line is indented once for every function around the statement
that it comes from. A header is followed by a line one level deeper, no other line opens a level,
and writing a statement line by line leaves the script at the level where it was.
-/

namespace Scriptlet

namespace Target

-- A line of a script.
structure Line where
  depth : Nat
  text : String

namespace Line

def print (width : Nat) (l : Line) : String := indented width l.depth l.text

-- The line that starts a function.
def IsHeader (l : Line) : Prop := firstWord l.text = headerWord

-- A header opens exactly one level, and no other line opens any.
def Precedes (l next : Line) : Prop :=
  (l.IsHeader → next.depth = l.depth + 1) ∧ (¬ l.IsHeader → next.depth ≤ l.depth)

-- A line that stays one line, and whose indentation ends where its text starts.
structure Printable (l : Line) : Prop where
  unbroken : Unbroken l.text
  starts : ∃ c rest, l.text.toList = c :: rest ∧ c ≠ ' '

end Line

-- Lines that form a block at some level. The last one is no header, so every header has a line
-- after it.
structure Nests (depth : Nat) (lines : List Line) : Prop where
  printable : ∀ l ∈ lines, l.Printable
  starts : ∀ l ∈ lines.head?, l.depth = depth
  chained : lines.IsChain Line.Precedes
  ends : ∀ l ∈ lines.getLast?, ¬ l.IsHeader ∧ depth ≤ l.depth

namespace Nests

variable {depth : Nat} {l : Line} {lines later : List Line}

theorem nil : Nests depth [] where
  printable := by simp
  starts := by simp
  chained := .nil
  ends := by simp

theorem single (printable : l.Printable) (level : l.depth = depth) (plain : ¬ l.IsHeader) :
    Nests depth [l] where
  printable := by simpa using printable
  starts := by simpa using level
  chained := .singleton l
  ends := by simpa using ⟨plain, level.ge⟩

theorem append (first : Nests depth lines) (second : Nests depth later) :
    Nests depth (lines ++ later) where
  printable := List.forall_mem_append.2 ⟨first.printable, second.printable⟩
  starts := by
    intro l here
    rw [List.head?_append] at here
    rcases Option.or_eq_some_iff.1 here with here | ⟨-, here⟩
    · exact first.starts l here
    · exact second.starts l here
  chained := by
    refine List.isChain_append.2 ⟨first.chained, second.chained, fun l last next head => ?_⟩
    obtain ⟨plain, inside⟩ := first.ends l last
    have level := second.starts next head
    exact ⟨fun header => absurd header plain, fun _ => by omega⟩
  ends := by
    intro l here
    rw [List.getLast?_append] at here
    rcases Option.or_eq_some_iff.1 here with here | ⟨-, here⟩
    · exact second.ends l here
    · exact first.ends l here

theorem function (printable : l.Printable) (level : l.depth = depth) (header : l.IsHeader)
    (inner : Nests (depth + 1) lines) (filled : lines ≠ []) : Nests depth (l :: lines) where
  printable := List.forall_mem_cons.2 ⟨printable, inner.printable⟩
  starts := by simpa using level
  chained := by
    refine List.isChain_cons.2 ⟨fun next head => ?_, inner.chained⟩
    have deeper := inner.starts next head
    exact ⟨fun _ => by omega, fun plain => absurd header plain⟩
  ends := by
    intro last here
    rw [List.getLast?_cons_of_ne_nil filled] at here
    obtain ⟨plain, inside⟩ := inner.ends last here
    exact ⟨plain, by omega⟩

end Nests

namespace Stmt

-- The text of the first line of a statement. For all but functions it is the only line.
def head : Stmt → String
  | assign name value => name ++ " = " ++ value.print
  | augment name op value => name ++ " " ++ op.symbol ++ "= " ++ value.print
  | expression value => value.print
  | ret value => "return " ++ value.print
  | globals names => "global " ++ commaSeparated names
  | nonlocals names => "nonlocal " ++ commaSeparated names
  | pass => "pass"
  | function name parameters _ => "def " ++ name ++ "(" ++ commaSeparated parameters ++ "):"

def line (depth : Nat) (s : Stmt) : Line := ⟨depth, s.head⟩

def isSimple : Stmt → Bool
  | function _ _ _ => false
  | _ => true

-- A statement of one line whose names can be written.
structure Writable (s : Stmt) : Prop where
  simple : s.isSimple = true
  words : AllWords s.ownNames

variable {s : Stmt} {depth width : Nat} {block : List Stmt}

theorem lines_simple (simple : s.isSimple = true) :
    s.lines width depth = [(s.line depth).print width] := by
  cases s with
  | function => cases simple
  | _ => rfl

theorem allLines_simple (simple : ∀ s ∈ block, s.isSimple = true) :
    allLines width depth block = (block.map (line depth)).map (Line.print width) := by
  induction block with
  | nil => rfl
  | cons s block ih =>
    obtain ⟨here, others⟩ := List.forall_mem_cons.1 simple
    rw [allLines, lines_simple here, ih others]
    rfl

theorem Writable.unbroken (writable : s.Writable) : Unbroken s.head := by
  obtain ⟨simple, words⟩ := writable
  cases s with
  | assign name value =>
    exact (words.cons.1.unbroken.append (by decide)).append (value.print_unbroken words.cons.2)
  | augment name op value =>
    have named := words.cons.1.unbroken.append (by decide : Unbroken " ")
    have operated := (named.append op.symbol_unbroken).append (by decide : Unbroken "= ")
    exact operated.append (value.print_unbroken words.cons.2)
  | expression value => exact value.print_unbroken words
  | ret value => exact .append (by decide) (value.print_unbroken words)
  | globals names => exact .append (by decide) words.commaSeparated
  | nonlocals names => exact .append (by decide) words.commaSeparated
  | pass => decide
  | function => cases simple

theorem Writable.opens (writable : s.Writable) : Opens s.head := by
  obtain ⟨simple, words⟩ := writable
  cases s with
  | assign name value =>
    rw [head, String.append_assoc]
    exact words.cons.1.opens_alone (firstWord_spaced (by simp))
  | augment name op value =>
    simp only [head, String.append_assoc]
    exact words.cons.1.opens_alone (firstWord_spaced (by simp))
  | expression value => exact value.print_opens words
  | ret value => exact opens_of_first (by simp [head]) (by decide : 'r' ≠ ' ') (by decide)
  | globals names => exact opens_of_first (by simp [head]) (by decide : 'g' ≠ ' ') (by decide)
  | nonlocals names => exact opens_of_first (by simp [head]) (by decide : 'n' ≠ ' ') (by decide)
  | pass => exact opens_of_first rfl (by decide) (by decide)
  | function => cases simple

theorem Writable.printable (writable : s.Writable) : (s.line depth).Printable :=
  ⟨writable.unbroken, starts_of_firstWord writable.opens.1⟩

theorem Writable.nests (all : ∀ s ∈ block, s.Writable) : Nests depth (block.map (line depth)) := by
  induction block with
  | nil => exact .nil
  | cons s block ih =>
    obtain ⟨here, others⟩ := List.forall_mem_cons.1 all
    exact (Nests.single here.printable rfl here.opens.2).append (ih others)

variable {name : String} {parameters : List String} {body : List Stmt}

theorem function_isHeader : (line depth (.function name parameters body)).IsHeader := by
  simp [Line.IsHeader, line, head, firstWord, headerWord]

theorem function_printable (named : IsWord name) (words : AllWords parameters) :
    (line depth (.function name parameters body)).Printable where
  unbroken := by
    have named := Unbroken.append (by decide : Unbroken "def ") named.unbroken
    have opened := named.append (by decide : Unbroken "(")
    exact (opened.append words.commaSeparated).append (by decide)
  starts := by
    apply starts_of_firstWord
    rw [function_isHeader]
    exact List.cons_ne_nil _ _

end Stmt

end Target

open Target

mutual

-- Whether every declaration in it declares something.
def Stmt.filled : Stmt → Bool
  | .declaration _ _ declarators => !declarators.isEmpty
  | .function _ _ _ _ body => Stmt.filledAll body
  | _ => true

def Stmt.filledAll : List Stmt → Bool
  | [] => true
  | s :: rest => s.filled && Stmt.filledAll rest

end

theorem ReadsDeclarators.ne_nil {n m : NodeId} {ts : List Token} {ds : List Declarator}
    (reads : ReadsDeclarators n ts ds m) : ds ≠ [] := by
  cases reads <;> exact List.cons_ne_nil _ _

mutual

theorem ReadsStatement.filled : ∀ {n ts s m}, ReadsStatement n ts s m → s.filled = true
  | _, _, _, _, .declaration _ names _ => by simp [Stmt.filled, names.ne_nil]
  | _, _, _, _, .assignment _ _ _ _ => rfl
  | _, _, _, _, .function _ _ _ _ _ _ statements _ => statements.filledAll
  | _, _, _, _, .output _ _ _ => rfl
  | _, _, _, _, .throw _ _ _ => rfl
  | _, _, _, _, .expression _ _ => rfl

theorem ReadsBody.filledAll : ∀ {n ts body m}, ReadsBody n ts body m →
    Stmt.filledAll body = true
  | _, _, _, _, .none => rfl
  | _, _, _, _, .more first rest => Bool.and_eq_true_iff.2 ⟨first.filled, rest.filledAll⟩

end

mutual

-- The lines of a statement: its own, and for a function then those of its body. `enclosing` has
-- one entry for each function around the statement.
def Stmt.outline (a : Analysis) (enclosing : List (List String)) : Stmt → List Line
  | .function span name nameSpan parameters body =>
    let locals := localNames parameters body
    ((Stmt.function span name nameSpan parameters body).lower a enclosing).map
        (Target.Stmt.line enclosing.length) ++
      (bodyHeader enclosing locals body).map (Target.Stmt.line (enclosing.length + 1)) ++
      Stmt.outlineAll a (locals :: enclosing) body
  | s => (s.lower a enclosing).map (Target.Stmt.line enclosing.length)

def Stmt.outlineAll (a : Analysis) (enclosing : List (List String)) : List Stmt → List Line
  | [] => []
  | s :: rest => s.outline a enclosing ++ Stmt.outlineAll a enclosing rest

end

variable {a : Analysis} {enclosing : List (List String)} {depth width : Nat}

theorem Stmt.lower_simple {s : Stmt} (plain : s.defined = []) :
    ∀ line ∈ s.lower a enclosing, line.isSimple = true := by
  intro line member
  cases s with
  | declaration span fixed declarators =>
    obtain ⟨d, listed, rfl⟩ := List.mem_map.1 member
    rfl
  | assignment span name nameSpan op value =>
    obtain ⟨written, e, lowered, writes, -⟩ :=
      lower_assignment a enclosing span name nameSpan op value
    rw [lowered] at member
    rw [List.mem_singleton.1 member]
    rcases writes with rfl | ⟨op, rfl⟩ <;> rfl
  | function => cases plain
  | output | throw | expression => cases List.mem_singleton.1 member; rfl

theorem Stmt.outline_plain {s : Stmt} (plain : s.defined = []) :
    s.outline a enclosing = (s.lower a enclosing).map (Target.Stmt.line enclosing.length) := by
  cases s with
  | function => cases plain
  | _ => rfl

theorem bodyHeader_cases {locals : List String} {body : List Stmt} {line : Target.Stmt}
    (member : line ∈ bodyHeader enclosing locals body) :
    line = .globals ((moduleNames enclosing locals body).map spell) ∨
      line = .nonlocals ((enclosedNames enclosing locals body).map spell) ∨ line = .pass := by
  rw [bodyHeader_eq] at member
  rcases List.mem_append.1 member with member | member
  · rcases List.mem_append.1 member with member | member
    · exact .inl (eq_of_mem_outerDeclaration member)
    · exact .inr (.inl (eq_of_mem_outerDeclaration member))
  · exact .inr (.inr (eq_pass_of_mem member))

theorem bodyHeader_simple {locals : List String} {body : List Stmt} :
    ∀ line ∈ bodyHeader enclosing locals body, line.isSimple = true := by
  intro line member
  rcases bodyHeader_cases member with rfl | rfl | rfl <;> rfl

section Function

theorem eq_globals_of_mem {name : String} {line : Target.Stmt}
    (member : line ∈ if enclosing.isEmpty then [] else [Target.Stmt.globals [spell name]]) :
    line = .globals [spell name] := by
  split at member
  · cases member
  · exact List.mem_singleton.1 member

variable {span nameSpan : Span} {name : String} {parameters : List Parameter} {body : List Stmt}

theorem allLines_definition (d : Def) : Target.Stmt.allLines width depth [d.statement] =
    (d.statement.line depth).print width :: Target.Stmt.allLines width (depth + 1) d.body := by
  rw [Target.Stmt.allLines, Target.Stmt.allLines, List.append_nil]
  rfl

theorem Stmt.allLines_function :
    Target.Stmt.allLines width depth
        ((Stmt.function span name nameSpan parameters body).lower a enclosing) =
      (((Stmt.function span name nameSpan parameters body).lower a enclosing).map
          (Target.Stmt.line depth)).map (Line.print width) ++
        ((bodyHeader enclosing (localNames parameters body) body).map
          (Target.Stmt.line (depth + 1))).map (Line.print width) ++
        Target.Stmt.allLines width (depth + 1)
          (Stmt.lowerAll a (localNames parameters body :: enclosing) body) := by
  have scopeLine : ∀ line ∈ if enclosing.isEmpty then [] else [Target.Stmt.globals [spell name]],
      line.isSimple = true := by
    intro line member
    rw [eq_globals_of_mem member]
    rfl
  rw [Stmt.lower_function, Target.Stmt.allLines_append, Target.Stmt.allLines_simple scopeLine,
    allLines_definition]
  simp only [definition, Target.Stmt.allLines_append, Target.Stmt.allLines_simple bodyHeader_simple]
  simp

end Function

theorem Stmt.allLines_plain {s : Stmt} (plain : s.defined = []) :
    Target.Stmt.allLines width enclosing.length (s.lower a enclosing) =
      (s.outline a enclosing).map (Line.print width) := by
  rw [outline_plain plain]
  exact Target.Stmt.allLines_simple (lower_simple plain)

mutual

theorem Stmt.allLines_lower : ∀ (s : Stmt) (enclosing : List (List String)),
    Target.Stmt.allLines width enclosing.length (s.lower a enclosing) =
      (s.outline a enclosing).map (Line.print width)
  | .function _ _ _ parameters body => by
    intro enclosing
    have inner := Stmt.allLines_lowerAll body (localNames parameters body :: enclosing)
    rw [allLines_function, Stmt.outline, List.map_append, List.map_append, ← inner]
    rfl
  | .declaration .. => fun _ => allLines_plain rfl
  | .assignment .. => fun _ => allLines_plain rfl
  | .output .. => fun _ => allLines_plain rfl
  | .throw .. => fun _ => allLines_plain rfl
  | .expression .. => fun _ => allLines_plain rfl

theorem Stmt.allLines_lowerAll : ∀ (body : List Stmt) (enclosing : List (List String)),
    Target.Stmt.allLines width enclosing.length (Stmt.lowerAll a enclosing body) =
      (Stmt.outlineAll a enclosing body).map (Line.print width)
  | [] => fun _ => rfl
  | s :: rest => by
    intro enclosing
    rw [Stmt.lowerAll, Target.Stmt.allLines_append, Stmt.outlineAll, List.map_append,
      s.allLines_lower enclosing, Stmt.allLines_lowerAll rest enclosing]

end

-- The script with a line for each of these statements.
def Script.addHeads (s : Script) (block : List Target.Stmt) : Script :=
  block.foldl (fun s line => s.addLine line.head) s

mutual

-- The statement written line by line. A function opens a level of indentation and of local names,
-- writes its body there, and closes both.
def Stmt.write : Stmt → Script → Script
  | .function span name nameSpan parameters body, s =>
    let locals := localNames parameters body
    let opened :=
      (s.addHeads ((Stmt.function span name nameSpan parameters body).lower s.analysis
        s.enclosing)).indent
    let started := (opened.addHeads (bodyHeader s.enclosing locals body)).enterFunction locals
    (Stmt.writeAll body started).exitFunction.dedent
  | statement, s => s.addHeads (statement.lower s.analysis s.enclosing)

def Stmt.writeAll : List Stmt → Script → Script
  | [], s => s
  | statement :: rest, s => Stmt.writeAll rest (statement.write s)

end

theorem Script.addHeads_eq (block : List Target.Stmt) (s : Script) :
    s.addHeads block =
      { s with
        lines := s.lines ++ (block.map (Target.Stmt.line s.depth)).map (Line.print s.width) } := by
  induction block generalizing s with
  | nil => simp [addHeads]
  | cons first block ih =>
    have step : s.addHeads (first :: block) = (s.addLine first.head).addHeads block := rfl
    rw [step, ih]
    simp [addLine, Line.print, Target.Stmt.line]

theorem Stmt.write_plain {statement : Stmt} (plain : statement.defined = []) (s : Script) :
    statement.write s = s.emit statement := by
  have own : statement.write s = s.addHeads (statement.lower s.analysis s.enclosing) := by
    cases statement with
    | function => cases plain
    | _ => rfl
  rw [own, Script.addHeads_eq, Script.emit, Target.Stmt.allLines_simple (lower_simple plain)]

mutual

-- What a function opens it closes again, so written line by line a statement adds its lines and
-- changes nothing else.
theorem Stmt.write_eq : ∀ (statement : Stmt) (s : Script), statement.write s = s.emit statement
  | .function _ _ _ _ body => by
    intro s
    rw [Stmt.write, Script.emit, Stmt.allLines_function]
    simp only [Script.addHeads_eq, Stmt.writeAll_eq body]
    simp [Script.indent, Script.enterFunction, Script.exitFunction, Script.dedent]
  | .declaration .. => write_plain rfl
  | .assignment .. => write_plain rfl
  | .output .. => write_plain rfl
  | .throw .. => write_plain rfl
  | .expression .. => write_plain rfl

theorem Stmt.writeAll_eq : ∀ (body : List Stmt) (s : Script), Stmt.writeAll body s =
    { s with
      lines := s.lines ++
        Target.Stmt.allLines s.width s.depth (Stmt.lowerAll s.analysis s.enclosing body) }
  | [] => by simp [Stmt.writeAll, Stmt.lowerAll, Target.Stmt.allLines]
  | statement :: rest => by
    intro s
    rw [Stmt.writeAll, statement.write_eq, Stmt.writeAll_eq rest, Stmt.lowerAll,
      Target.Stmt.allLines_append, ← List.append_assoc]
    rfl

end

theorem Stmt.lower_writable {s : Stmt} (plain : s.defined = []) (names : AllNames s.allNames) :
    ∀ line ∈ s.lower a enclosing, line.Writable := by
  intro line member
  refine ⟨lower_simple plain line member, fun n occurs => ?_⟩
  have own : AllNames s.ownNames := fun x listed => names x (ownNames_subset listed)
  exact (s.lower_ownNames line member n occurs).isWord own

theorem bodyHeader_spelled {locals : List String} {body : List Stmt} {line : Target.Stmt}
    (member : line ∈ bodyHeader enclosing locals body) :
    ∀ n ∈ line.ownNames, Spelled (Stmt.allNamesAll body) n := by
  intro n occurs
  obtain ⟨x, outer, rfl⟩ := bodyHeader_ownNames member occurs
  obtain ⟨s, inside, assigned⟩ := List.mem_flatMap.1 (mem_outerNames.1 outer).1
  have mentioned := Stmt.ownNames_subset (Stmt.assigned_subset assigned)
  exact .inl (List.mem_map_of_mem (Stmt.mem_allNamesAll.2 ⟨s, inside, mentioned⟩))

theorem bodyHeader_writable {locals : List String} {body : List Stmt}
    (names : AllNames (Stmt.allNamesAll body)) :
    ∀ line ∈ bodyHeader enclosing locals body, line.Writable := by
  intro line member
  refine ⟨bodyHeader_simple line member, fun n occurs => ?_⟩
  exact (bodyHeader_spelled member n occurs).isWord names

theorem Stmt.lower_ne_nil {s : Stmt} (filled : s.filled = true) : s.lower a enclosing ≠ [] := by
  cases s with
  | declaration span fixed declarators => simpa [Stmt.lower, Stmt.filled] using filled
  | function =>
    rw [lower_function]
    exact List.append_ne_nil_of_right_ne_nil _ (List.cons_ne_nil _ _)
  | assignment span name nameSpan op value =>
    cases op <;> exact List.cons_ne_nil _ _
  | output | throw | expression => exact List.cons_ne_nil _ _

theorem Stmt.outline_ne_nil {s : Stmt} (filled : s.filled = true) : s.outline a enclosing ≠ [] := by
  have own : (s.lower a enclosing).map (Target.Stmt.line enclosing.length) ≠ [] :=
    List.map_eq_nil_iff.not.2 (lower_ne_nil filled)
  cases s with
  | function =>
    rw [Stmt.outline, List.append_assoc]
    exact List.append_ne_nil_of_left_ne_nil own _
  | _ => exact own

-- No function body is empty: where there is no statement there is a line that says so.
theorem body_ne_nil {locals : List String} {body : List Stmt}
    (filled : Stmt.filledAll body = true) :
    (bodyHeader enclosing locals body).map (Target.Stmt.line depth) ++
      Stmt.outlineAll a (locals :: enclosing) body ≠ [] := by
  cases body with
  | nil =>
    rw [bodyHeader_eq]
    simp
  | cons s rest =>
    apply List.append_ne_nil_of_right_ne_nil
    rw [Stmt.outlineAll]
    exact List.append_ne_nil_of_left_ne_nil
      (Stmt.outline_ne_nil (Bool.and_eq_true_iff.1 filled).1) _

theorem Stmt.outline_plain_nests {s : Stmt} (plain : s.defined = []) (names : AllNames s.allNames) :
    Nests enclosing.length (s.outline a enclosing) := by
  rw [outline_plain plain]
  exact Target.Stmt.Writable.nests (lower_writable plain names)

theorem Stmt.outline_function_nests {span nameSpan : Span} {name : String}
    {parameters : List Parameter} {body : List Stmt}
    (names : AllNames (Stmt.function span name nameSpan parameters body).allNames)
    (filled : Stmt.filledAll body = true)
    (inner : Nests (enclosing.length + 1)
      (Stmt.outlineAll a (localNames parameters body :: enclosing) body)) :
    Nests enclosing.length
      ((Stmt.function span name nameSpan parameters body).outline a enclosing) := by
  obtain ⟨own, inside⟩ := List.forall_mem_append.1 names
  obtain ⟨named, parametersNamed⟩ := List.forall_mem_cons.1 own
  have scopeLine : ∀ line ∈ if enclosing.isEmpty then [] else [Target.Stmt.globals [spell name]],
      line.Writable := by
    intro line member
    rw [eq_globals_of_mem member]
    exact ⟨rfl, List.forall_mem_singleton.2 named.isWord⟩
  have words : AllWords (parameters.map fun p => spell p.name) := by
    intro n member
    obtain ⟨p, listed, rfl⟩ := List.mem_map.1 member
    exact (parametersNamed p.name (List.mem_map_of_mem listed)).isWord
  have header : ∀ line ∈ bodyHeader enclosing (localNames parameters body) body, line.Writable :=
    bodyHeader_writable inside
  have block := (Target.Stmt.Writable.nests header).append inner
  rw [Stmt.outline, lower_function, List.map_append, List.append_assoc, List.append_assoc]
  refine (Target.Stmt.Writable.nests scopeLine).append ?_
  exact .function (Target.Stmt.function_printable named.isWord words) rfl
    Target.Stmt.function_isHeader block (body_ne_nil filled)

mutual

theorem Stmt.outline_nests : ∀ (s : Stmt) (enclosing : List (List String)),
    AllNames s.allNames → s.filled = true → Nests enclosing.length (s.outline a enclosing)
  | .function _ _ _ parameters body => fun enclosing names filled =>
    outline_function_nests names filled
      (Stmt.outlineAll_nests body (localNames parameters body :: enclosing)
        (List.forall_mem_append.1 names).2 filled)
  | .declaration .. => fun _ names _ => outline_plain_nests rfl names
  | .assignment .. => fun _ names _ => outline_plain_nests rfl names
  | .output .. => fun _ names _ => outline_plain_nests rfl names
  | .throw .. => fun _ names _ => outline_plain_nests rfl names
  | .expression .. => fun _ names _ => outline_plain_nests rfl names

theorem Stmt.outlineAll_nests : ∀ (body : List Stmt) (enclosing : List (List String)),
    AllNames (Stmt.allNamesAll body) → Stmt.filledAll body = true →
      Nests enclosing.length (Stmt.outlineAll a enclosing body)
  | [] => fun _ _ _ => .nil
  | s :: rest => fun enclosing names filled =>
    (s.outline_nests enclosing (List.forall_mem_append.1 names).1
      (Bool.and_eq_true_iff.1 filled).1).append
      (Stmt.outlineAll_nests rest enclosing (List.forall_mem_append.1 names).2
        (Bool.and_eq_true_iff.1 filled).2)

end

-- The lines of a generated script are well nested, and whoever writes them one by one is after
-- each statement at the level of indentation and among the local names where it started.
theorem emitted_lines_nest {source : String} {program : Program}
    (read : Program.ofSource source = .ok program) (a : Analysis) (width : Nat) :
    (program.body.foldl Script.emit ((Script.start a).withWidth width)).lines =
        (Stmt.outlineAll a [] program.body).map (Line.print (max width 1)) ∧
      Nests 0 (Stmt.outlineAll a [] program.body) ∧
      ∀ (statement : Stmt) (s : Script), statement.write s = s.emit statement ∧
        (statement.write s).depth = s.depth ∧ (statement.write s).enclosing = s.enclosing := by
  obtain ⟨ts, m, lexical, reads⟩ := ofSource_reads read
  refine ⟨?_, ?_, fun statement s => ?_⟩
  · rw [Script.foldl_emit, ← Stmt.allLines_lowerAll]
    rfl
  · exact Stmt.outlineAll_nests program.body [] (reads.names lexical) reads.filledAll
  · rw [statement.write_eq]
    exact ⟨rfl, rfl, rfl⟩

-- A function with two others in it, of which one reaches a name outside and one is empty.
def layoutSource : String :=
  "func f(x) \x7b func g() \x7b x = \"a\\nb\"; \x7d func h() \x7b \x7d \x7d show 2;"

theorem layoutSource_nests : ∃ program, Program.ofSource layoutSource = .ok program ∧
    (program.body.foldl Script.emit ((Script.start .empty).withWidth 0)).lines =
      ["def f(x):", " global g", " def g():", "  nonlocal x", "  x = \"a\\nb\"", " global h",
        " def h():", "  pass", "_minima_show(2)"] ∧
    Nests 0 (Stmt.outlineAll .empty [] program.body) := by
  have found : ((Program.ofSource layoutSource).toOption.any fun program =>
      decide ((program.body.foldl Script.emit ((Script.start .empty).withWidth 0)).lines =
        ["def f(x):", " global g", " def g():", "  nonlocal x", "  x = \"a\\nb\"", " global h",
          " def h():", "  pass", "_minima_show(2)"])) = true := by decide +kernel
  obtain ⟨program, read, lines⟩ := ok_of_any found
  exact ⟨program, read, of_decide_eq_true lines, (emitted_lines_nest read .empty 0).2.1⟩

end Scriptlet
