import Mathlib.Data.List.Infix
import Mathlib.Data.List.Nodup
import Scriptlet.Proofs.Tree.Nodes

/-!
The scoping rules, on the text alone. A program is read as the list of its mentions of names, in
the order of the source, each with the body that it stands in. Whether a mention is allowed
depends on those before it. There are no values here, and no table of symbols.
-/

namespace Scriptlet

-- The way to a body: the positions of the functions around it, innermost first. The top level
-- has none, and a body stands in another if its place ends with the place of that one.
abbrev Place := List Nat

inductive Occurrence where
  -- A declarator, or a parameter of the function whose body it is.
  | declares (name : String) (fixed : Bool)
  | defines (name : String) (arity : Nat)
  | reads (name : String)
  | assigns (name : String)
  | calls (name : String) (count : Nat)
  | throws
deriving DecidableEq

namespace Occurrence

def declared? : Occurrence → Option (String × Bool)
  | declares name fixed => some (name, fixed)
  | _ => none

def defined? : Occurrence → Option (String × Nat)
  | defines name arity => some (name, arity)
  | _ => none

end Occurrence

structure Mention where
  place : Place
  what : Occurrence
deriving DecidableEq

-- What a node itself says, without its parts.
def Expr.use? : Expr → Option Occurrence
  | .identifier _ name => some (.reads name)
  | .call _ callee _ arguments => some (.calls callee arguments.length)
  | _ => none

def Expr.mentions (place : Place) (e : Expr) : List Mention :=
  (e.nodes.filterMap Expr.use?).map (⟨place, ·⟩)

-- The first value stands before the name: it cannot read the variable.
def Declarator.mentions (place : Place) (fixed : Bool) (d : Declarator) : List Mention :=
  d.value.elim [] (Expr.mentions place) ++ [⟨place, .declares d.name fixed⟩]

-- The name of a function stands in the body around it, the parameters in its own.
def headMentions (place : Place) (index : Nat) (name : String) (parameters : List Parameter) :
    List Mention :=
  ⟨place, .defines name parameters.length⟩ ::
    parameters.map fun p => ⟨index :: place, .declares p.name false⟩

mutual

-- `index` is the position of the statement in its body.
def Stmt.mentions (place : Place) (index : Nat) : Stmt → List Mention
  | .declaration _ fixed declarators => declarators.flatMap (·.mentions place fixed)
  | .assignment _ name _ _ value => ⟨place, .assigns name⟩ :: value.mentions place
  | .function _ name _ parameters body =>
    headMentions place index name parameters ++ Stmt.mentionsAll (index :: place) 0 body
  | .throw _ value => ⟨place, .throws⟩ :: value.mentions place
  | .output _ value | .expression _ value => value.mentions place

def Stmt.mentionsAll (place : Place) (index : Nat) : List Stmt → List Mention
  | [] => []
  | s :: rest => s.mentions place index ++ Stmt.mentionsAll place (index + 1) rest

end

def Program.mentions (p : Program) : List Mention := Stmt.mentionsAll [] 0 p.body

-- The variables that a body declares, each with whether it is fixed.
def variablesAt (mentions : List Mention) (place : Place) : List (String × Bool) :=
  mentions.filterMap fun m => if m.place = place then m.what.declared? else none

-- The functions of all bodies, each with the number of its parameters.
def functionsOf (mentions : List Mention) : List (String × Nat) :=
  mentions.filterMap (·.what.defined?)

def namesAt (mentions : List Mention) (place : Place) : List String :=
  (variablesAt mentions place).map (·.1)

def functionNames (mentions : List Mention) : List String := (functionsOf mentions).map (·.1)

-- What the mentions before it have to be like.
def Mention.Allowed (before : List Mention) (m : Mention) : Prop :=
  match m.what with
  | .declares name _ => name ∉ namesAt before m.place ∧ name ∉ functionNames before
  | .defines name _ =>
    name ∉ functionNames before ∧ ∀ place, place <:+ m.place → name ∉ namesAt before place
  | .reads name => ∃ place, place <:+ m.place ∧ name ∈ namesAt before place
  -- The innermost body that declares the name has it as a variable that is not fixed.
  | .assigns name =>
    ∃ home, home <:+ m.place ∧ (name, false) ∈ variablesAt before home ∧
      ∀ place, place <:+ m.place → name ∈ namesAt before place → place <:+ home
  | .calls name count => (name, count) ∈ functionsOf before
  | .throws => m.place ≠ []

def Program.WellScoped (p : Program) : Prop :=
  ∀ before m after, p.mentions = before ++ m :: after → m.Allowed before

-- Each of these is allowed after the ones in front of it.
def AllowedAfter (before : List Mention) : List Mention → Prop
  | [] => True
  | m :: rest => m.Allowed before ∧ AllowedAfter (before ++ [m]) rest

section

variable {before mentions mentions' : List Mention} {m : Mention} {place : Place}

theorem allowedAfter_iff : AllowedAfter before mentions ↔
    ∀ early m late, mentions = early ++ m :: late → m.Allowed (before ++ early) := by
  induction mentions generalizing before with
  | nil => simp [AllowedAfter]
  | cons first rest ih =>
    rw [AllowedAfter, ih]
    constructor
    · rintro ⟨allowed, later⟩ early m late split
      cases early with
      | nil =>
        obtain ⟨rfl, -⟩ := List.cons.inj split
        rwa [List.append_nil]
      | cons head early =>
        obtain ⟨rfl, tail⟩ := List.cons.inj split
        have allowed := later early m late tail
        rwa [List.append_assoc] at allowed
    · intro all
      refine ⟨?_, fun early m late split => ?_⟩
      · have allowed := all [] first rest rfl
        rwa [List.append_nil] at allowed
      · have allowed := all (first :: early) m late (by rw [split, List.cons_append])
        rwa [List.append_assoc]

theorem wellScoped_iff {p : Program} : p.WellScoped ↔ AllowedAfter [] p.mentions := by
  simp only [Program.WellScoped, allowedAfter_iff, List.nil_append]

theorem allowedAfter_append : AllowedAfter before (mentions ++ mentions') ↔
    AllowedAfter before mentions ∧ AllowedAfter (before ++ mentions) mentions' := by
  induction mentions generalizing before with
  | nil => simp [AllowedAfter]
  | cons m rest ih =>
    rw [List.cons_append, AllowedAfter, AllowedAfter, ih, List.append_assoc, and_assoc]
    rfl

theorem allowedAfter_singleton : AllowedAfter before [m] ↔ m.Allowed before := by
  simp [AllowedAfter]

theorem variablesAt_append :
    variablesAt (before ++ mentions) place =
      variablesAt before place ++ variablesAt mentions place :=
  List.filterMap_append

theorem functionsOf_append :
    functionsOf (before ++ mentions) = functionsOf before ++ functionsOf mentions :=
  List.filterMap_append

theorem namesAt_append :
    namesAt (before ++ mentions) place = namesAt before place ++ namesAt mentions place := by
  rw [namesAt, variablesAt_append, List.map_append]
  rfl

theorem functionNames_append :
    functionNames (before ++ mentions) = functionNames before ++ functionNames mentions := by
  rw [functionNames, functionsOf_append, List.map_append]
  rfl

theorem variablesAt_declares {name : String} {fixed : Bool} {other : Place} :
    variablesAt [⟨place, .declares name fixed⟩] other =
      if place = other then [(name, fixed)] else [] := by
  by_cases here : place = other <;> simp [variablesAt, Occurrence.declared?, here]

theorem variablesAt_defines {name : String} {arity : Nat} {other : Place} :
    variablesAt [⟨place, .defines name arity⟩] other = [] := by
  by_cases here : place = other <;> simp [variablesAt, Occurrence.declared?, here]

theorem variablesAt_elsewhere (elsewhere : ∀ m ∈ mentions, m.place ≠ place) :
    variablesAt mentions place = [] := by
  rw [variablesAt, List.filterMap_eq_nil_iff]
  intro m listed
  rw [if_neg (elsewhere m listed)]

-- What declares nothing.
def Mention.Quiet (m : Mention) : Prop := m.what.declared? = none ∧ m.what.defined? = none

theorem variablesAt_quiet (quiet : ∀ m ∈ mentions, m.Quiet) : variablesAt mentions place = [] := by
  rw [variablesAt, List.filterMap_eq_nil_iff]
  intro m listed
  simp [(quiet m listed).1]

theorem functionsOf_quiet (quiet : ∀ m ∈ mentions, m.Quiet) : functionsOf mentions = [] := by
  rw [functionsOf, List.filterMap_eq_nil_iff]
  exact fun m listed => (quiet m listed).2

theorem variablesAt_append_quiet (quiet : ∀ m ∈ mentions, m.Quiet) :
    variablesAt (before ++ mentions) = variablesAt before := by
  funext place
  rw [variablesAt_append, variablesAt_quiet quiet, List.append_nil]

theorem functionsOf_append_quiet (quiet : ∀ m ∈ mentions, m.Quiet) :
    functionsOf (before ++ mentions) = functionsOf before := by
  rw [functionsOf_append, functionsOf_quiet quiet, List.append_nil]

theorem allowed_append_quiet (quiet : ∀ m ∈ mentions, m.Quiet) :
    m.Allowed (before ++ mentions) ↔ m.Allowed before := by
  simp only [Mention.Allowed, namesAt, functionNames, variablesAt_append_quiet quiet,
    functionsOf_append_quiet quiet]

theorem allowedAfter_quiet (quiet : ∀ m ∈ mentions, m.Quiet) :
    AllowedAfter before mentions ↔ ∀ m ∈ mentions, m.Allowed before := by
  induction mentions generalizing before with
  | nil => simp [AllowedAfter]
  | cons m rest ih =>
    rw [List.forall_mem_cons] at quiet
    have alone : ∀ m' ∈ [m], m'.Quiet := by simpa using quiet.1
    rw [AllowedAfter, ih quiet.2, List.forall_mem_cons]
    simp only [allowed_append_quiet alone]

theorem allowedAfter_cons_quiet (quiet : ∀ m' ∈ m :: mentions, m'.Quiet) :
    AllowedAfter before (m :: mentions) ↔ m.Allowed before ∧ AllowedAfter before mentions := by
  rw [allowedAfter_quiet quiet, List.forall_mem_cons,
    allowedAfter_quiet (List.forall_mem_cons.1 quiet).2]

theorem Expr.mentions_quiet {e : Expr} : ∀ m ∈ e.mentions place, m.Quiet := by
  intro m listed
  obtain ⟨use, said, rfl⟩ := List.mem_map.1 listed
  obtain ⟨n, -, said⟩ := List.mem_filterMap.1 said
  cases n <;> cases said <;> exact ⟨rfl, rfl⟩

theorem AllowedAfter.namesAt_nodup (allowed : AllowedAfter before mentions)
    (distinct : (namesAt before place).Nodup) : (namesAt (before ++ mentions) place).Nodup := by
  induction mentions generalizing before with
  | nil => rwa [List.append_nil]
  | cons m rest ih =>
    obtain ⟨allowed, later⟩ := allowed
    have first : (namesAt (before ++ [m]) place).Nodup := by
      rw [namesAt_append]
      by_cases here : m.place = place
      · subst here
        obtain ⟨body, what⟩ := m
        cases what with
        | declares name fixed =>
          have single : namesAt [⟨body, .declares name fixed⟩] body = [name] := by
            simp [namesAt, variablesAt_declares]
          rw [single, ← List.concat_eq_append]
          exact distinct.concat allowed.1
        | _ => simpa [namesAt, variablesAt, Occurrence.declared?] using distinct
      · have none : namesAt [m] place = [] := by simp [namesAt, variablesAt, here]
        rwa [none, List.append_nil]
    have all := ih later first
    rwa [List.append_assoc] at all

theorem AllowedAfter.functionNames_nodup (allowed : AllowedAfter before mentions)
    (distinct : (functionNames before).Nodup) : (functionNames (before ++ mentions)).Nodup := by
  induction mentions generalizing before with
  | nil => rwa [List.append_nil]
  | cons m rest ih =>
    obtain ⟨allowed, later⟩ := allowed
    have first : (functionNames (before ++ [m])).Nodup := by
      rw [functionNames_append]
      obtain ⟨place, what⟩ := m
      cases what with
      | defines name arity =>
        have single : functionNames [⟨place, .defines name arity⟩] = [name] := rfl
        rw [single, ← List.concat_eq_append]
        exact distinct.concat allowed.1
      | _ => simpa [functionNames, functionsOf, Occurrence.defined?] using distinct
    have all := ih later first
    rwa [List.append_assoc] at all

end

mutual

theorem Stmt.mentions_place : ∀ {s : Stmt} {place : Place} {index : Nat},
    ∀ m ∈ s.mentions place index, m.place = place ∨ (index :: place) <:+ m.place
  | .declaration .., _, _ => by
    intro m listed
    obtain ⟨d, -, listed⟩ := List.mem_flatMap.1 listed
    rcases List.mem_append.1 listed with used | declared
    · cases value : d.value with
      | none => simp [value] at used
      | some e =>
        simp only [value, Option.elim_some] at used
        obtain ⟨use, -, rfl⟩ := List.mem_map.1 used
        exact .inl rfl
    · cases List.mem_singleton.1 declared
      exact .inl rfl
  | .assignment .., _, _ | .throw .., _, _ => by
    intro m listed
    rcases List.mem_cons.1 listed with rfl | used
    · exact .inl rfl
    · obtain ⟨use, -, rfl⟩ := List.mem_map.1 used
      exact .inl rfl
  | .function _ _ _ parameters body, place, index => by
    intro m listed
    rcases List.mem_append.1 listed with outside | inside
    · rcases List.mem_cons.1 outside with rfl | parameter
      · exact .inl rfl
      · obtain ⟨p, -, rfl⟩ := List.mem_map.1 parameter
        exact .inr List.suffix_rfl
    · rcases Stmt.mentionsAll_place m inside with own | ⟨later, -, deeper⟩
      · exact .inr (own ▸ List.suffix_rfl)
      · exact .inr ((List.suffix_cons ..).trans deeper)
  | .output .., _, _ | .expression .., _, _ => by
    intro m used
    obtain ⟨use, -, rfl⟩ := List.mem_map.1 used
    exact .inl rfl

theorem Stmt.mentionsAll_place : ∀ {body : List Stmt} {place : Place} {index : Nat},
    ∀ m ∈ Stmt.mentionsAll place index body,
      m.place = place ∨ ∃ later, index ≤ later ∧ (later :: place) <:+ m.place
  | [], _, _ => by simp [Stmt.mentionsAll]
  | s :: rest, place, index => by
    intro m listed
    rcases List.mem_append.1 listed with first | listed
    · exact (Stmt.mentions_place m first).imp_right fun inside => ⟨index, Nat.le_refl _, inside⟩
    · refine (Stmt.mentionsAll_place m listed).imp_right ?_
      rintro ⟨later, after, inside⟩
      exact ⟨later, Nat.le_of_succ_le after, inside⟩

end

end Scriptlet
