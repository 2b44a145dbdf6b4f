import Scriptlet.Proofs.Analysis.Finite
import Scriptlet.Proofs.Grammar.Numerals
import Scriptlet.Proofs.Target.Script

/-!
The statements of a script can be had from its text. Lowering leaves nothing in a statement that a
reader could not take back: names are no keywords, numbers are finite, and no block is empty.
-/

namespace Scriptlet

open Target

variable {a : Analysis} {enclosing : List (List String)}

theorem IsName.isSpelling {x : String} (named : IsName x) : IsSpelling (spell x) := by
  have keyword : ∀ cs ∈ keywords, cs.head? ≠ some '_' ∧
      (cs.head?.any ('a' ≤ ·) = false ∨ reservedNames.contains (String.ofList cs) = true) := by
    decide +kernel
  by_cases reserved : reservedNames.contains x = true
  · have marked : (spell x).toList = '_' :: 'm' :: 'n' :: '_' :: x.toList := by
      rw [spell_reserved reserved, toList_marked]
    refine ⟨⟨_, _, marked, rfl⟩, named.spell_chars, fun listed => (keyword _ listed).1 ?_⟩
    rw [marked]
    rfl
  · obtain ⟨c, cs, same, lower, -⟩ := named.starts
    have plain := spell_plain reserved
    have chars : (spell x).toList = c :: cs := by rw [plain, same]
    refine ⟨⟨c, cs, chars, ?_⟩, named.spell_chars, fun listed => ?_⟩
    · simp [Pattern.isWordStart, Pattern.isLetter, lower.1, lower.2]
    · rcases (keyword _ listed).2 with upper | taken
      · rw [chars] at upper
        simp [lower.1] at upper
      · rw [String.ofList_toList, plain] at taken
        exact reserved taken

theorem isSpelling_of_helper {n : String} (helper : n ∈ helperNames) : IsSpelling n := by
  have all : ∀ n ∈ helperNames, n.toList.head?.any Pattern.isWordStart = true ∧
      n.toList ∉ keywords := by decide +kernel
  obtain ⟨start, free⟩ := all n helper
  obtain ⟨c, first, letter⟩ := (Option.any_eq_true _ _).1 start
  obtain ⟨cs, same⟩ := List.head?_eq_some_iff.1 first
  exact ⟨⟨c, cs, same, letter⟩, helper_chars helper, free⟩

theorem readable_kept : Kept Target.Expr.Readable where
  zero := (by decide : Integer.least < (0 : Int64).toInt)
  empty := trivial
  call helper inside := ⟨isSpelling_of_helper helper, inside, trivial⟩
  shown inside := ⟨isSpelling_of_helper (by decide), inside, trivial, trivial⟩
  binary left right := ⟨left, right⟩
  falseAfter all := ⟨List.cons_ne_nil _ _, Target.Expr.allReadable_iff.2 all⟩
  yesNo inside := inside

-- Every literal of the expression can be written down.
def Expr.Writable (e : Expr) : Prop := ∀ entry ∈ e.literals, (Target.literal entry.2).Readable

theorem Expr.Writable.part {e part : Expr} (writable : e.Writable) (below : part ∈ e.parts) :
    part.Writable := by
  intro entry listed
  apply writable
  rw [literals_eq]
  exact List.mem_append_left _ (List.mem_flatMap.2 ⟨part, below, listed⟩)

mutual

theorem Expr.lower_readable : ∀ e : Expr, AllNames e.names → e.Writable → (e.lower a).Readable
  | .literal node value, _, writable => writable (node.span, value) List.mem_cons_self
  | .identifier _ x, names, _ => (names x List.mem_cons_self).isSpelling
  | .call _ callee _ arguments, names, writable =>
    ⟨(names callee List.mem_cons_self).isSpelling, Expr.lowerAll_readable arguments
      (List.forall_mem_cons.1 names).2 fun _ => writable.part⟩
  | .list _ items, names, writable => Expr.lowerAll_readable items names fun _ => writable.part
  | .binary _ op left right, names, writable =>
    readable_kept.operation op _ _ _
      (left.lower_readable (List.forall_mem_append.1 names).1 (writable.part List.mem_cons_self))
      (right.lower_readable (List.forall_mem_append.1 names).2
        (writable.part (List.mem_cons_of_mem _ List.mem_cons_self)))
  | .unary _ .not operand, names, writable =>
    readable_kept.condition _ (operand.lower_readable names (writable.part List.mem_cons_self))
  | .unary _ .negate operand, names, writable =>
    operand.lower_readable names (writable.part List.mem_cons_self)
  | .cast _ target operand, names, writable =>
    readable_kept.cast target _ (operand.lower_readable names (writable.part List.mem_cons_self))
  | .grouping _ inner, names, writable =>
    inner.lower_readable names (writable.part List.mem_cons_self)

theorem Expr.lowerAll_readable : ∀ es : List Expr, AllNames (Expr.namesAll es) →
    (∀ e ∈ es, e.Writable) → Target.Expr.AllReadable (Expr.lowerAll a es)
  | [], _, _ => trivial
  | e :: es, names, writable =>
    ⟨e.lower_readable (List.forall_mem_append.1 names).1 (List.forall_mem_cons.1 writable).1,
      Expr.lowerAll_readable es (List.forall_mem_append.1 names).2
        (List.forall_mem_cons.1 writable).2⟩

end

theorem bodyHeader_readable {locals : List String} {body : List Stmt}
    (names : AllNames (Stmt.allNamesAll body)) :
    Target.Stmt.AllReadable (bodyHeader enclosing locals body) := by
  refine Target.Stmt.allReadable_iff.2 fun line member => ?_
  have spelled : ∀ n ∈ line.ownNames, IsSpelling n := by
    intro n occurs
    rcases bodyHeader_spelled member n occurs with listed | helper
    · obtain ⟨x, inside, rfl⟩ := List.mem_map.1 listed
      exact (names x inside).isSpelling
    · exact isSpelling_of_helper helper
  rcases bodyHeader_cases member with rfl | rfl | rfl
  · exact spelled
  · exact spelled
  · trivial

theorem Stmt.lower_plain_readable {s : Stmt} (plain : s.defined = []) (names : AllNames s.allNames)
    (writable : ∀ e ∈ s.roots, e.Writable) : Target.Stmt.AllReadable (s.lower a enclosing) := by
  refine Target.Stmt.allReadable_iff.2 fun line member => ?_
  cases s with
  | declaration span fixed declarators =>
    obtain ⟨d, listed, rfl⟩ := List.mem_map.1 member
    have own : AllNames d.names := fun x named => names x (List.mem_flatMap.2 ⟨d, listed, named⟩)
    obtain ⟨named, inside⟩ := List.forall_mem_cons.1 own
    refine ⟨named.isSpelling, ?_⟩
    cases value : d.value with
    | none => trivial
    | some e =>
      rw [value] at inside
      exact e.lower_readable inside (writable e (List.mem_filterMap.2 ⟨d, listed, value⟩))
  | assignment span name nameSpan op value =>
    obtain ⟨named, inside⟩ := List.forall_mem_cons.1 names
    obtain ⟨written, e, lowered, writes, covers⟩ :=
      lower_assignment a enclosing span name nameSpan op value
    have readable : e.Readable := covers _ readable_kept named.isSpelling
      (value.lower_readable inside (writable value List.mem_cons_self))
    rw [lowered] at member
    rw [List.mem_singleton.1 member]
    rcases writes with rfl | ⟨op, rfl⟩ <;> exact ⟨named.isSpelling, readable⟩
  | function => cases plain
  | output span value =>
    cases List.mem_singleton.1 member
    exact readable_kept.call (by decide)
      (value.lower_readable names (writable value List.mem_cons_self))
  | throw span value =>
    cases List.mem_singleton.1 member
    exact value.lower_readable names (writable value List.mem_cons_self)
  | expression span value =>
    cases List.mem_singleton.1 member
    exact value.lower_readable names (writable value List.mem_cons_self)

theorem definition_ne_nil {name : String} {parameters : List Parameter} {body : List Stmt}
    (filled : Stmt.filledAll body = true) :
    (definition a enclosing name parameters body).body ≠ [] := by
  unfold definition
  dsimp only
  cases body with
  | nil =>
    rw [bodyHeader_eq]
    simp
  | cons s rest =>
    apply List.append_ne_nil_of_right_ne_nil
    rw [Stmt.lowerAll]
    exact List.append_ne_nil_of_left_ne_nil
      (Stmt.lower_ne_nil (Bool.and_eq_true_iff.1 filled).1) _

theorem Stmt.lower_function_readable {span nameSpan : Span} {name : String}
    {parameters : List Parameter} {body : List Stmt}
    (names : AllNames (Stmt.function span name nameSpan parameters body).allNames)
    (filled : Stmt.filledAll body = true)
    (inner : Target.Stmt.AllReadable
      (Stmt.lowerAll a (localNames parameters body :: enclosing) body)) :
    Target.Stmt.AllReadable
      ((Stmt.function span name nameSpan parameters body).lower a enclosing) := by
  obtain ⟨own, inside⟩ := List.forall_mem_append.1 names
  obtain ⟨named, parametersNamed⟩ := List.forall_mem_cons.1 own
  have parameterSpellings : ∀ n ∈ parameters.map fun p => spell p.name, IsSpelling n := by
    intro n member
    obtain ⟨p, listed, rfl⟩ := List.mem_map.1 member
    exact (parametersNamed p.name (List.mem_map_of_mem listed)).isSpelling
  rw [lower_function]
  refine .append (Target.Stmt.allReadable_iff.2 fun line member => ?_)
    ⟨⟨named.isSpelling, parameterSpellings, definition_ne_nil filled,
      (bodyHeader_readable inside).append inner⟩, trivial⟩
  rw [eq_globals_of_mem member]
  exact List.forall_mem_singleton.2 named.isSpelling

mutual

theorem Stmt.lower_readable : ∀ (s : Stmt) (enclosing : List (List String)),
    AllNames s.allNames → s.filled = true → (∀ e ∈ s.roots, e.Writable) →
      Target.Stmt.AllReadable (s.lower a enclosing)
  | .function _ _ _ parameters body => fun enclosing names filled writable =>
    lower_function_readable names filled
      (Stmt.lowerAll_readable body (localNames parameters body :: enclosing)
        (List.forall_mem_append.1 names).2 filled writable)
  | .declaration .. => fun _ names _ => lower_plain_readable rfl names
  | .assignment .. => fun _ names _ => lower_plain_readable rfl names
  | .output .. => fun _ names _ => lower_plain_readable rfl names
  | .throw .. => fun _ names _ => lower_plain_readable rfl names
  | .expression .. => fun _ names _ => lower_plain_readable rfl names

theorem Stmt.lowerAll_readable : ∀ (body : List Stmt) (enclosing : List (List String)),
    AllNames (Stmt.allNamesAll body) → Stmt.filledAll body = true →
      (∀ e ∈ Stmt.rootsAll body, e.Writable) →
      Target.Stmt.AllReadable (Stmt.lowerAll a enclosing body)
  | [] => fun _ _ _ _ => trivial
  | s :: rest => fun enclosing names filled writable =>
    (s.lower_readable enclosing (List.forall_mem_append.1 names).1
      (Bool.and_eq_true_iff.1 filled).1 (List.forall_mem_append.1 writable).1).append
      (Stmt.lowerAll_readable rest enclosing (List.forall_mem_append.1 names).2
        (Bool.and_eq_true_iff.1 filled).2 (List.forall_mem_append.1 writable).2)

end

theorem Token.Lexical.literal_readable {t : Token} {row : Span × Literal} (lexical : t.Lexical)
    (read : t.literal? = some row) : (Target.literal row.2).Readable := by
  obtain ⟨span, value⟩ := row
  cases value with
  | integer n =>
    have found : t.readInteger? = some (span, n.toInt) := by
      rw [readInteger?, read]
      rfl
    rw [lexical.readInteger?_eq] at found
    have bounds := (lexical.integer_read found).2
    have least : Integer.least < -999999999 := by decide
    exact Int.lt_of_lt_of_le least bounds.1
  | point x => exact Value.finite_point.1 (lexical.literal_finite read)
  | state b => trivial
  | text s => trivial
  | empty => trivial

theorem ofSource_readable {source : String} {program : Program}
    (read : Program.ofSource source = .ok program) (a : Analysis) :
    Target.Stmt.AllReadable (Stmt.lowerAll a [] program.body) := by
  obtain ⟨ts, m, lexical, reads⟩ := ofSource_reads read
  refine Stmt.lowerAll_readable program.body [] (reads.names lexical) reads.filledAll ?_
  intro e root entry written
  have listed : entry ∈ (Stmt.rootsAll program.body).flatMap Expr.literals :=
    List.mem_flatMap.2 ⟨e, root, written⟩
  rw [reads.literals] at listed
  obtain ⟨t, inside, found⟩ := List.mem_filterMap.1 listed
  exact (lexical t inside).literal_readable found

-- The script of a program is read as the statements that the program was lowered to.
theorem readScript_generate {source : String} {program : Program}
    (read : Program.ofSource source = .ok program) (a : Analysis) (options : CompileOptions) :
    readScript Point.ofLiteral? options (generate program a options) =
      some (Target.Stmt.canonicalAll (Stmt.lowerAll a [] program.body)) := by
  rw [generate_eq]
  exact readScript_scriptText (fun _ => Point.ofLiteral?_write) options (ofSource_readable read a)

end Scriptlet
