import Scriptlet.Proofs.Binding.Nesting
import Scriptlet.Proofs.Outcome
import Scriptlet.Proofs.Target.Canonical
import Scriptlet.Proofs.Target.Recovered

/-!
Scope lines of generated Python are legal. Lowering does not check that: it holds because the
check refuses a function whose name is known where it stands, and a variable with the name of a
function.
-/

namespace Scriptlet

open Target

-- What Python asks of the scope lines of a definition, inside the definitions around it.
structure Target.Legal (d : Def) (outer : List Def) : Prop where
  parameters : ∀ n ∈ d.parameters, n ∉ d.globals ∧ n ∉ d.nonlocals
  apart : ∀ n ∈ d.globals, n ∉ d.nonlocals
  -- A scope line stands before everything else with one of its names.
  first : ∀ pre line post, d.body = pre ++ line :: post →
    ∀ n ∈ line.listed, n ∉ pre.flatMap Target.Stmt.ownNames
  reached : ∀ n ∈ d.nonlocals, ∃ o ∈ outer, o.binds n = true

variable {a : Analysis} {enclosing : List (List String)} {name : String}
  {parameters : List Parameter} {body : List Stmt}

namespace Regular

section

variable (regular : Regular parameters body)
include regular

theorem moduleNames_apart {n : String}
    (left : n ∈ (moduleNames enclosing (localNames parameters body) body).map spell) :
    n ∉ (enclosedNames enclosing (localNames parameters body) body).map spell := by
  obtain ⟨x, listed, rfl⟩ := List.mem_map.1 left
  obtain ⟨outer, outside⟩ := List.mem_filter.1 listed
  have named := regular.isName_assigned (mem_outerNames.1 outer).1
  intro right
  rw [mem_map_spell named] at right
  · simp [(List.mem_filter.1 right).2] at outside
  · intro y member
    exact regular.isName_assigned (mem_outerNames.1 (List.mem_filter.1 member).1).1

theorem header_first : (bodyHeader enclosing (localNames parameters body) body).Pairwise
    fun earlier line => ∀ n ∈ line.listed, n ∉ earlier.ownNames := by
  have alone : ∀ form names, (outerDeclaration form names).Pairwise
      fun earlier line => ∀ n ∈ line.listed, n ∉ earlier.ownNames := by
    intro form names
    unfold outerDeclaration
    split <;> simp
  rw [bodyHeader_eq, List.append_assoc, List.pairwise_append, List.pairwise_append]
  refine ⟨alone _ _, ⟨alone _ _, by split <;> simp, ?_⟩, ?_⟩
  · intro earlier _ line member n listed
    cases eq_pass_of_mem member
    cases listed
  · intro earlier early line member n listed
    cases eq_of_mem_outerDeclaration early
    rcases List.mem_append.1 member with member | member
    · cases eq_of_mem_outerDeclaration member
      exact fun occurs => regular.moduleNames_apart occurs listed
    · cases eq_pass_of_mem member
      cases listed

theorem defined_first {before after : List Stmt} {s : Stmt} {g : String}
    (split : body = before ++ s :: after) (defined : s.defined = [g]) :
    spell g ∉ (bodyHeader enclosing (localNames parameters body) body ++
      Stmt.lowerAll a (localNames parameters body :: enclosing) before).flatMap
        Target.Stmt.ownNames := by
  have here : g ∈ s.defined := by simp [defined]
  have member : g ∈ body.flatMap Stmt.defined :=
    List.mem_flatMap.2 ⟨s, by simp [split], here⟩
  have named := regular.isName_defined member
  intro occurs
  obtain ⟨line, listed, occurs⟩ := List.mem_flatMap.1 occurs
  rcases List.mem_append.1 listed with header | lowered
  · obtain ⟨x, outer, same⟩ := bodyHeader_ownNames header occurs
    have assigned := (mem_outerNames.1 outer).1
    cases spell_inj named (regular.isName_assigned assigned) same
    exact (regular.defined_not_local member).2 assigned
  · obtain ⟨t, earlier, lowered⟩ := Stmt.mem_lowerAll.1 lowered
    rcases t.lower_ownNames line lowered _ occurs with mentioned | helper
    · obtain ⟨x, mentioned, same⟩ := List.mem_map.1 mentioned
      have early : x ∈ before.flatMap Stmt.ownNames := List.mem_flatMap.2 ⟨t, earlier, mentioned⟩
      have inBody : x ∈ body.flatMap Stmt.ownNames := by simp [split, early]
      cases spell_inj named (regular.isName inBody) same.symm
      exact ((split ▸ regular.accepted).defined_fresh here).2 early
    · exact spell_ne_helper named helper

theorem scopeLine_first {pre post : List Target.Stmt} {line : Target.Stmt}
    (split : (definition a enclosing name parameters body).body = pre ++ line :: post) :
    ∀ n ∈ line.listed, n ∉ pre.flatMap Target.Stmt.ownNames := by
  intro n listed
  have lists : line.listed ≠ [] := List.ne_nil_of_mem listed
  -- Behind the header a scope line belongs to a function.
  have behind : ∀ middle, pre = bodyHeader enclosing (localNames parameters body) body ++ middle →
      Stmt.lowerAll a (localNames parameters body :: enclosing) body = middle ++ line :: post →
      n ∉ pre.flatMap Target.Stmt.ownNames := by
    intro middle same lowered
    obtain ⟨before, s, after, g, whole, defined, rfl, names⟩ :=
      Stmt.lowerAll_scopeLine (by simp) lowered lists
    rw [names] at listed
    cases List.mem_singleton.1 listed
    rw [same]
    exact regular.defined_first whole defined
  rcases List.append_eq_append_iff.1 split with ⟨middle, same, later⟩ | ⟨middle, same, later⟩
  · exact behind middle same later
  · cases middle with
    | nil => exact behind [] (by simpa using same.symm) later.symm
    | cons first middle =>
      obtain ⟨rfl, -⟩ := List.cons.inj later
      have ordered := @header_first enclosing parameters body regular
      rw [same] at ordered
      intro occurs
      obtain ⟨earlier, early, occurs⟩ := List.mem_flatMap.1 occurs
      exact (List.pairwise_append.1 ordered).2.2 earlier early line (by simp) n listed occurs

end

end Regular

theorem Level.exists_binds {levels : List Level} {s : Stmt} {x : String}
    (regular : Every Regular levels s) (named : IsName x)
    (found : bindsLocally (scopes levels s) x = true) :
    ∃ o ∈ definitions a levels s, o.binds (spell x) = true := by
  have some : (definitions a levels s).any (·.binds (spell x)) = true := by
    rw [← List.findIdx?_isSome, findIdx?_binds regular named, List.findIdx?_isSome]
    exact found
  exact List.any_eq_true.1 some

theorem Regular.legal {levels : List Level} {s : Stmt} (regular : Regular parameters body)
    (around : Level.Every Regular levels s) :
    Legal (definition a (Level.scopes levels s) name parameters body)
      (Level.definitions a levels s) where
  parameters n member := by
    obtain ⟨p, listed, rfl⟩ := List.mem_map.1 member
    have own : p.name ∈ localNames parameters body := by
      rw [localNames_eq]
      exact List.mem_append_left _ (List.mem_map_of_mem listed)
    have named := regular.isName_local own
    rw [regular.mem_globals named, regular.mem_nonlocals named]
    have undefined := fun defined => (regular.defined_not_local defined).1 own
    grind
  apart n member := by
    rw [definition_globals] at member
    rw [definition_nonlocals]
    rcases List.mem_append.1 member with outer | function
    · exact regular.moduleNames_apart outer
    · obtain ⟨g, defined, rfl⟩ := List.mem_map.1 function
      intro listed
      obtain ⟨x, outer, same⟩ := List.mem_map.1 listed
      have assigned := (mem_outerNames.1 (List.mem_filter.1 outer).1).1
      cases spell_inj (regular.isName_defined defined) (regular.isName_assigned assigned) same.symm
      exact (regular.defined_not_local defined).2 assigned
  first pre line post split := regular.scopeLine_first split
  reached n member := by
    rw [definition_nonlocals] at member
    obtain ⟨x, listed, rfl⟩ := List.mem_map.1 member
    obtain ⟨outer, found⟩ := List.mem_filter.1 listed
    exact Level.exists_binds around (regular.isName_assigned (mem_outerNames.1 outer).1) found

theorem nested_legal {source : String} {program : Program} {analysis : Analysis}
    (checked : check source = .ok (program, analysis)) (accepted : analysis.accepted = true)
    {d : Def} {outer : List Def}
    (nested : Nested (Stmt.lowerAll analysis [] program.body) (d :: outer)) : Legal d outer := by
  obtain ⟨levels, span, name, nameSpan, parameters, inner, placed, same⟩ := nested_source nested
  obtain ⟨rfl, rfl⟩ := List.cons.inj same
  obtain ⟨before, after, split⟩ := List.append_of_mem placed
  obtain ⟨orderly, reached, named⟩ := place_accepted checked accepted split
  exact (Level.regular_of_function orderly reached named).legal
    (Level.every_regular orderly reached named)

theorem Target.Legal.canonical {d : Def} {outer : List Def} (legal : Legal d outer) :
    Legal d.canonical (outer.map Def.canonical) where
  parameters n member := by
    rw [d.globals_canonical, d.nonlocals_canonical]
    exact legal.parameters n member
  apart n member := by
    rw [d.globals_canonical] at member
    rw [d.nonlocals_canonical]
    exact legal.apart n member
  first pre line post split n listed := by
    have written : d.body.map Target.Stmt.canonical = pre ++ line :: post := by
      rw [← Stmt.canonicalAll_eq_map]
      exact split
    obtain ⟨before, rest, body, rfl, later⟩ := List.map_eq_append_iff.1 written
    obtain ⟨own, after, rfl, rfl, -⟩ := List.map_eq_cons_iff.1 later
    have same := own.canonical_names
    have names : (before.map Target.Stmt.canonical).flatMap Target.Stmt.ownNames =
        before.flatMap Target.Stmt.ownNames := by
      rw [← Stmt.canonicalAll_eq_map]
      exact flatMap_canonicalAll before fun s => s.canonical_names.1
    rw [Target.Stmt.listed, same.2.2.1, same.2.2.2] at listed
    rw [names]
    exact legal.first before own after body n listed
  reached n member := by
    rw [d.nonlocals_canonical] at member
    obtain ⟨o, around, binds⟩ := legal.reached n member
    exact ⟨o.canonical, List.mem_map_of_mem around, by rw [o.binds_canonical, binds]⟩

-- The scope lines of every definition in the script of an accepted program are legal, as it is
-- written and as its text is read.
theorem generate_legal {source : String} {program : Program} {analysis : Analysis}
    (checked : check source = .ok (program, analysis)) (accepted : analysis.accepted = true)
    (options : CompileOptions) :
    generate program analysis options =
        scriptText options (Stmt.lowerAll analysis [] program.body) ∧
      (∀ d outer, Nested (Stmt.lowerAll analysis [] program.body) (d :: outer) → Legal d outer) ∧
      ∃ script, readScript Point.ofLiteral? options (generate program analysis options) =
          some script ∧
        ∀ d outer, Nested script (d :: outer) → Legal d outer := by
  refine ⟨generate_eq program analysis options,
    fun _ _ nested => nested_legal checked accepted nested, _,
    readScript_generate (check_eq_ok.1 checked).1 analysis options, fun d outer nested => ?_⟩
  obtain ⟨written, inside, same⟩ := nested.written
  cases written with
  | nil => cases same
  | cons e around =>
    obtain ⟨rfl, rfl⟩ := List.cons.inj same
    exact (nested_legal checked accepted inside).canonical

-- A function that writes a variable of the function around it and one of the module, and defines
-- a third function.
def nestedSource : String :=
  "var x = 1; func f(a) { var y = a; func g(b) { y = b; x = y; func h() { a = x; } } }"

theorem nestedSource_legal : ∃ program analysis, check nestedSource = .ok (program, analysis) ∧
    analysis.accepted = true ∧
    (∃ g f, Nested (Stmt.lowerAll analysis [] program.body) [g, f] ∧ g.globals = ["x", "h"] ∧
      g.nonlocals = ["y"] ∧ Legal g [f]) ∧
    ∃ script, readScript Point.ofLiteral? {} (generate program analysis {}) = some script ∧
      ∃ g f, Nested script [g, f] ∧ g.globals = ["x", "h"] ∧ g.nonlocals = ["y"] ∧
        Legal g [f] := by
  have found : ((check nestedSource).toOption.any fun result => result.2.accepted &&
      (definitionsOf (Stmt.lowerAll result.2 [] result.1.body)).any fun f =>
        (definitionsOf f.body).any fun g =>
          decide (g.globals = ["x", "h"] ∧ g.nonlocals = ["y"])) = true := by decide +kernel
  obtain ⟨⟨program, analysis⟩, checked, holds⟩ := ok_of_any found
  simp only [Bool.and_eq_true, List.any_eq_true, decide_eq_true_eq] at holds
  obtain ⟨accepted, f, outer, g, inner, globals, nonlocals⟩ := holds
  have nested : Nested (Stmt.lowerAll analysis [] program.body) [g, f] :=
    .inner (.outermost (mem_definitionsOf outer)) (mem_definitionsOf inner)
  obtain ⟨-, legal, script, read, legal'⟩ := generate_legal checked accepted {}
  have recovered := readScript_generate (check_eq_ok.1 checked).1 analysis {}
  cases Option.some.inj (read.symm.trans recovered)
  refine ⟨program, analysis, checked, accepted,
    ⟨g, f, nested, globals, nonlocals, legal g [f] nested⟩, _, read, g.canonical, f.canonical,
    nested.canonical, ?_, ?_, legal' _ _ nested.canonical⟩
  · rw [g.globals_canonical, globals]
  · rw [g.nonlocals_canonical, nonlocals]

end Scriptlet
