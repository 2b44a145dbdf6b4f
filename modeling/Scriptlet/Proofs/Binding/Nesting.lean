import Scriptlet.Compile
import Scriptlet.Proofs.Target.Lowered

/-!
Definitions in a script and functions in its program. The definitions around a place are those of
the levels around it, and every nested definition comes from a place. In an accepted program a
definition binds just the names that its function declares.
-/

namespace Scriptlet

open Target

variable {a : Analysis} {enclosing : List (List String)} {x n : String} {body : List Stmt}

namespace Level

-- The names that each function around the hole binds, innermost first.
def scopes : List Level → Stmt → List (List String)
  | [], _ => []
  | l :: outer, s => localNames l.parameters (l.body s) :: scopes outer (l.close s)

-- The definitions that these functions become.
def definitions (a : Analysis) : List Level → Stmt → List Def
  | [], _ => []
  | l :: outer, s =>
    definition a (scopes outer (l.close s)) l.name l.parameters (l.body s) ::
      definitions a outer (l.close s)

end Level

theorem Stmt.mem_lowerAll {line : Target.Stmt} :
    line ∈ Stmt.lowerAll a enclosing body ↔ ∃ s ∈ body, line ∈ s.lower a enclosing := by
  rw [Stmt.lowerAll_eq, List.mem_flatMap]

theorem Level.definition_mem {l : Level} {s : Stmt} :
    (definition a enclosing l.name l.parameters (l.body s)).statement ∈
      (l.close s).lower a enclosing := by
  rw [close, Stmt.lower_function]
  simp

theorem Level.nested_definitions {levels : List Level} {s : Stmt} (some : levels ≠ [])
    (placed : closeAll levels s ∈ body) :
    Nested (Stmt.lowerAll a [] body) (definitions a levels s) := by
  induction levels generalizing s with
  | nil => exact absurd rfl some
  | cons l outer ih =>
    cases outer with
    | nil => exact .outermost (Stmt.mem_lowerAll.2 ⟨_, placed, definition_mem⟩)
    | cons next outer =>
      refine .inner (ih (by simp) placed) (List.mem_append_right _ ?_)
      exact Stmt.mem_lowerAll.2 ⟨l.close s, by simp [Level.body], definition_mem⟩

theorem Stmt.function_of_lower {s : Stmt} {d : Def}
    (member : d.statement ∈ s.lower a enclosing) :
    ∃ span name nameSpan parameters inner, s = .function span name nameSpan parameters inner ∧
      d = definition a enclosing name parameters inner := by
  cases s with
  | declaration span fixed declarators =>
    obtain ⟨_, -, same⟩ := List.mem_map.1 member
    cases same
  | assignment span name nameSpan op value =>
    obtain ⟨line, e, lowered, writes, -⟩ := lower_assignment a enclosing span name nameSpan op value
    rw [lowered] at member
    rcases writes with rfl | ⟨op, rfl⟩ <;> cases List.mem_singleton.1 member
  | function span name nameSpan parameters inner =>
    rw [Stmt.lower_function] at member
    refine ⟨span, name, nameSpan, parameters, inner, rfl, ?_⟩
    rcases List.mem_append.1 member with line | definition
    · split at line
      · cases line
      · cases List.mem_singleton.1 line
    · exact Def.statement_inj (List.mem_singleton.1 definition)
  | output | throw | expression => cases List.mem_singleton.1 member

theorem not_mem_bodyHeader {locals : List String} {d : Def} :
    d.statement ∉ bodyHeader enclosing locals body := by
  rw [bodyHeader_eq]
  intro member
  simp only [List.mem_append] at member
  rcases member with (line | line) | line
  · cases eq_of_mem_outerDeclaration line
  · cases eq_of_mem_outerDeclaration line
  · cases eq_pass_of_mem line

theorem nested_source {ds : List Def} (nested : Nested (Stmt.lowerAll a [] body) ds) :
    ∃ levels span name nameSpan parameters inner,
      Level.closeAll levels (.function span name nameSpan parameters inner) ∈ body ∧
      ds = definition a (Level.scopes levels (.function span name nameSpan parameters inner)) name
          parameters inner ::
        Level.definitions a levels (.function span name nameSpan parameters inner) := by
  induction nested with
  | @outermost d defined =>
    obtain ⟨s, listed, member⟩ := Stmt.mem_lowerAll.1 defined
    obtain ⟨span, name, nameSpan, parameters, inner, rfl, same⟩ :=
      Stmt.function_of_lower (d := d) member
    exact ⟨[], span, name, nameSpan, parameters, inner, listed, by rw [same]; rfl⟩
  | @inner d outer rest around defined ih =>
    obtain ⟨levels, span, name, nameSpan, parameters, inner, placed, same⟩ := ih
    obtain ⟨rfl, rfl⟩ := List.cons.inj same
    have lowered := (List.mem_append.1 defined).resolve_left
      (not_mem_bodyHeader (d := d))
    obtain ⟨s, listed, member⟩ := Stmt.mem_lowerAll.1 lowered
    obtain ⟨span', name', nameSpan', parameters', inner', rfl, same⟩ :=
      Stmt.function_of_lower (d := d) member
    obtain ⟨before, after, rfl⟩ := List.append_of_mem listed
    exact ⟨⟨span, name, nameSpan, parameters, before, after⟩ :: levels, span', name', nameSpan',
      parameters', inner', placed, by rw [same]; rfl⟩

-- A function of an accepted program: its body was accepted, and its names are names.
structure Regular (parameters : List Parameter) (body : List Stmt) : Prop where
  accepted : BodyAccepted parameters body
  named : AllNames (parameters.map (·.name) ++ Stmt.allNamesAll body)

namespace Regular

variable {name : String} {parameters : List Parameter}

section Names

variable (regular : Regular parameters body)
include regular

theorem isName (member : x ∈ body.flatMap Stmt.ownNames) : IsName x := by
  obtain ⟨s, listed, mentioned⟩ := List.mem_flatMap.1 member
  exact regular.named x (List.mem_append_right _
    (Stmt.mem_allNamesAll.2 ⟨s, listed, Stmt.ownNames_subset mentioned⟩))

theorem isName_of {part : Stmt → List String} (within : ∀ s, ∀ x ∈ part s, x ∈ s.ownNames)
    (member : x ∈ body.flatMap part) : IsName x := by
  obtain ⟨s, listed, mentioned⟩ := List.mem_flatMap.1 member
  exact regular.isName (List.mem_flatMap.2 ⟨s, listed, within s x mentioned⟩)

theorem isName_local (member : x ∈ localNames parameters body) : IsName x := by
  rw [localNames_eq] at member
  rcases List.mem_append.1 member with parameter | declared
  · exact regular.named x (List.mem_append_left _ parameter)
  · exact regular.isName_of (fun _ _ => Stmt.declared_subset) declared

theorem isName_assigned (member : x ∈ body.flatMap Stmt.assigned) : IsName x :=
  regular.isName_of (fun _ _ => Stmt.assigned_subset) member

theorem isName_defined (member : x ∈ body.flatMap Stmt.defined) : IsName x :=
  regular.isName_of (fun _ _ => Stmt.defined_subset) member

theorem mem_nonlocals (named : IsName x) :
    spell x ∈ (definition a enclosing name parameters body).nonlocals ↔
      (x ∈ body.flatMap Stmt.assigned ∧ x ∉ localNames parameters body) ∧
        bindsLocally enclosing x = true := by
  rw [definition_nonlocals, mem_map_spell named, enclosedNames, List.mem_filter, mem_outerNames]
  intro y member
  exact regular.isName_assigned (mem_outerNames.1 (List.mem_filter.1 member).1).1

theorem mem_globals (named : IsName x) :
    spell x ∈ (definition a enclosing name parameters body).globals ↔
      ((x ∈ body.flatMap Stmt.assigned ∧ x ∉ localNames parameters body) ∧
        bindsLocally enclosing x = false) ∨ x ∈ body.flatMap Stmt.defined := by
  rw [definition_globals, List.mem_append, mem_map_spell named, mem_map_spell named, moduleNames,
    List.mem_filter, mem_outerNames, Bool.not_eq_true']
  · exact fun y member => regular.isName_defined member
  · intro y member
    exact regular.isName_assigned (mem_outerNames.1 (List.mem_filter.1 member).1).1

theorem mem_bound (named : IsName x) :
    spell x ∈ (definition a enclosing name parameters body).body.flatMap Target.Stmt.bound ↔
      x ∈ body.flatMap fun s => s.declared ++ s.assigned ++ s.defined := by
  rw [definition_bound, ← List.map_flatMap, mem_map_spell named]
  refine fun y member => regular.isName_of (fun s x listed => ?_) member
  simp only [List.mem_append] at listed
  exact listed.elim (·.elim Stmt.declared_subset Stmt.assigned_subset) Stmt.defined_subset

theorem defined_not_local (member : x ∈ body.flatMap Stmt.defined) :
    x ∉ localNames parameters body ∧ x ∉ body.flatMap Stmt.assigned := by
  have apart := regular.accepted.defined_apart member
  refine ⟨fun own => ?_, fun assigned => apart ?_⟩
  · rw [localNames_eq] at own
    rcases List.mem_append.1 own with parameter | declared
    · obtain ⟨s, listed, here⟩ := List.mem_flatMap.1 member
      obtain ⟨before, after, rfl⟩ := List.append_of_mem listed
      exact (regular.accepted.defined_fresh here).1 parameter
    · obtain ⟨s, listed, here⟩ := List.mem_flatMap.1 declared
      exact apart (List.mem_flatMap.2 ⟨s, listed, List.mem_append_right _ here⟩)
  · obtain ⟨s, listed, here⟩ := List.mem_flatMap.1 assigned
    exact List.mem_flatMap.2 ⟨s, listed, List.mem_append_left _ here⟩

-- By the scope rules, just the names that the function declares are local to its definition.
theorem binds_iff (named : IsName x) :
    (definition a enclosing name parameters body).binds (spell x) = true ↔
      x ∈ localNames parameters body := by
  have parameter : spell x ∈ (definition a enclosing name parameters body).parameters ↔
      x ∈ parameters.map (·.name) := by
    have mapped : (definition a enclosing name parameters body).parameters =
        (parameters.map (·.name)).map spell := by simp [definition]
    rw [mapped, mem_map_spell named]
    exact fun y member => regular.named y (List.mem_append_left _ member)
  have locals : x ∈ localNames parameters body ↔
      x ∈ parameters.map (·.name) ∨ x ∈ body.flatMap Stmt.declared := by
    rw [localNames_eq, List.mem_append]
  have bound : (x ∈ body.flatMap fun s => s.declared ++ s.assigned ++ s.defined) ↔
      x ∈ body.flatMap Stmt.declared ∨ x ∈ body.flatMap Stmt.assigned ∨
        x ∈ body.flatMap Stmt.defined := by
    simp only [List.mem_flatMap, List.mem_append]
    grind
  have apart := @defined_not_local x body parameters regular
  simp only [Def.binds, Bool.and_eq_true, Bool.not_eq_true', List.contains_iff_mem,
    List.mem_append, ← Bool.not_eq_true, parameter, regular.mem_bound named,
    regular.mem_globals named, regular.mem_nonlocals named, bound]
  -- What is bound without being declared is assigned to, or a function: both are listed.
  by_cases declared : x ∈ localNames parameters body
  · have undefined := fun defined => (apart defined).1 declared
    grind
  · grind

end Names

end Regular

namespace Level

variable {levels : List Level} {s : Stmt}

theorem allNames_closeAll (member : x ∈ s.allNames) : x ∈ (closeAll levels s).allNames := by
  induction levels generalizing s with
  | nil => exact member
  | cons l outer ih =>
    refine ih (List.mem_append_right _ (Stmt.mem_allNamesAll.2 ⟨s, ?_, member⟩))
    simp [body]

theorem regular_of_function {a : Analysis} {inFunction : Bool} {span nameSpan : Span}
    {name : String} {parameters : List Parameter} {inner : List Stmt} (orderly : a.Orderly)
    (accepted : (a.check inFunction
      (closeAll levels (.function span name nameSpan parameters inner))).accepted = true)
    (named : AllNames (closeAll levels (.function span name nameSpan parameters inner)).allNames) :
    Regular parameters inner := by
  refine ⟨bodyAccepted_of_place orderly accepted, fun x member => named x ?_⟩
  exact allNames_closeAll (s := .function span name nameSpan parameters inner)
    (List.mem_cons_of_mem _ member)

theorem every_regular {a : Analysis} {inFunction : Bool} (orderly : a.Orderly)
    (accepted : (a.check inFunction (closeAll levels s)).accepted = true)
    (named : AllNames (closeAll levels s).allNames) : Every Regular levels s := by
  induction levels generalizing s with
  | nil => trivial
  | cons l outer ih => exact ⟨regular_of_function orderly accepted named, ih accepted named⟩

theorem findIdx?_binds (regular : Every Regular levels s) (named : IsName x) :
    (definitions a levels s).findIdx? (·.binds (spell x)) =
      (scopes levels s).findIdx? (·.contains x) := by
  induction levels generalizing s with
  | nil => rfl
  | cons l outer ih =>
    have same : (definition a (scopes outer (l.close s)) l.name l.parameters (l.body s)).binds
        (spell x) = (localNames l.parameters (l.body s)).contains x := by
      rw [Bool.eq_iff_iff, regular.1.binds_iff named, List.contains_iff_mem]
    rw [definitions, scopes, List.findIdx?_cons, List.findIdx?_cons, same, ih regular.2]

end Level

theorem place_accepted {source : String} {program : Program} {analysis : Analysis}
    (checked : check source = .ok (program, analysis)) (accepted : analysis.accepted = true)
    {before after : List Stmt} {s : Stmt} (split : program.body = before ++ s :: after) :
    (Analysis.empty.checkAll false before).Orderly ∧
      ((Analysis.empty.checkAll false before).check false s).accepted = true ∧
      AllNames s.allNames := by
  obtain ⟨read, rfl⟩ := check_eq_ok.1 checked
  have named := ofSource_names read
  rw [Analysis.ofProgram, split] at accepted
  rw [split] at named
  have reached := Analysis.checkAll_middle accepted
  refine ⟨(Analysis.checkAll_stepped Analysis.empty_orderly
    (Analysis.check_before reached)).orderly,
    reached, fun x member => named x (Stmt.mem_allNamesAll.2 ⟨s, by simp, member⟩)⟩

end Scriptlet
