import Scriptlet.Scope.Table

/-!
A symbol table as the names in it: the names of each open scope, innermost first, and the names
of all functions. Every operation on tables does something simple to this view. The numbers of
the scopes matter for one thing only: the open scopes have different ones.
-/

namespace Scriptlet

structure Names where
  inner : List String
  outer : List (List String)
  functions : List String

namespace Names

variable {names : Names} {name : String} {declared : List String}

-- The names of each open scope, innermost first.
def frames (names : Names) : List (List String) := names.inner :: names.outer

-- A variable of an open scope has this name.
def Sees (names : Names) (name : String) : Prop := ∃ frame ∈ names.frames, name ∈ frame

-- The name is that of a visible variable or of a function.
def Knows (names : Names) (name : String) : Prop := names.Sees name ∨ name ∈ names.functions

def declare (names : Names) (declared : List String) : Names :=
  { names with inner := names.inner ++ declared }

def register (names : Names) (functions : List String) : Names :=
  { names with functions := names.functions ++ functions }

def enter (names : Names) : Names := { names with inner := [], outer := names.frames }

def exit (names : Names) : Names :=
  match names.outer with
  | [] => names
  | frame :: rest => { names with inner := frame, outer := rest }

theorem sees_iff : names.Sees name ↔ name ∈ names.inner ∨ ∃ frame ∈ names.outer, name ∈ frame := by
  simp [Sees, frames]

theorem sees_declare : (names.declare declared).Sees name ↔ names.Sees name ∨ name ∈ declared := by
  simp only [sees_iff, declare, List.mem_append]
  constructor
  · rintro ((old | new) | outer)
    · exact .inl (.inl old)
    · exact .inr new
    · exact .inl (.inr outer)
  · rintro ((old | outer) | new)
    · exact .inl (.inl old)
    · exact .inr outer
    · exact .inl (.inr new)

theorem sees_enter : names.enter.Sees name ↔ names.Sees name := by
  simp [Sees, frames, enter]

-- No visible variable has the name of a function.
def Apart (names : Names) : Prop := ∀ name, names.Sees name → name ∉ names.functions

end Names

namespace SymbolTable

variable {t t' : SymbolTable} {id other : ScopeId} {name : String} {scopes : List Scope}

-- The names in the scope of that number.
def namesIn (scopes : List Scope) (id : ScopeId) : List String :=
  (scopes[id]?.map fun scope => scope.bindings.map (·.name)).getD []

def names (t : SymbolTable) : Names :=
  ⟨namesIn t.scopes t.current, t.enclosing.map (namesIn t.scopes), t.functions.map (·.name)⟩

theorem names_frames : t.names.frames = t.path.map (namesIn t.scopes) := rfl

-- The open scopes exist and have different numbers, and the outermost is that of the program.
structure Sound (t : SymbolTable) : Prop where
  distinct : t.path.Nodup
  inRange : ∀ id ∈ t.path, id < t.scopes.length
  rooted : t.path.getLast? = some globalScope

theorem empty_sound : empty.Sound := by
  refine ⟨?_, ?_, rfl⟩
  · simp [empty, path]
  · simp [empty, path, globalScope]

theorem find?_isSome {scope : Scope} :
    (scope.find? name).isSome = true ↔ name ∈ scope.bindings.map (·.name) := by
  simp [Scope.find?]

theorem variableIn?_isSome :
    (t.variableIn? id name).isSome = true ↔ name ∈ namesIn t.scopes id := by
  unfold variableIn? namesIn
  cases t.scopes[id]? with
  | none => simp
  | some scope => exact find?_isSome

theorem lookup?_isSome : (t.lookup? name).isSome = true ↔ t.names.Sees name := by
  simp only [lookup?, Names.Sees, names_frames, List.findSome?_isSome_iff, variableIn?_isSome]
  constructor
  · rintro ⟨id, member, found⟩
    exact ⟨_, List.mem_map.2 ⟨id, member, rfl⟩, found⟩
  · rintro ⟨frame, member, found⟩
    obtain ⟨id, opened, rfl⟩ := List.mem_map.1 member
    exact ⟨id, opened, found⟩

-- How many open scopes to leave until one that declares the name.
def levelOf? (t : SymbolTable) (name : String) : Option Nat :=
  t.path.findIdx? fun id => (t.variableIn? id name).isSome

theorem levelOf?_eq : t.levelOf? name = t.names.frames.findIdx? (·.contains name) := by
  rw [names_frames, List.findIdx?_map, levelOf?]
  congr 1
  funext id
  rw [Bool.eq_iff_iff, variableIn?_isSome]
  simp

theorem lookup?_of_levelOf? {level : Nat} (found : t.levelOf? name = some level) :
    ∃ id, t.path[level]? = some id ∧ t.home? name = some id ∧
      t.lookup? name = t.variableIn? id name := by
  unfold levelOf? at found
  unfold home? lookup?
  generalize t.path = path at found ⊢
  induction path generalizing level with
  | nil => cases found
  | cons id rest ih =>
    rw [List.findIdx?_cons] at found
    cases here : t.variableIn? id name with
    | some symbol =>
      simp only [here, Option.isSome_some, reduceIte, Option.some.injEq] at found
      exact ⟨id, by simp [← found], by simp [here], by simp [here]⟩
    | none =>
      simp only [here, Option.isSome_none, Bool.false_eq_true, reduceIte,
        Option.map_eq_some_iff] at found
      obtain ⟨inner, found, rfl⟩ := found
      obtain ⟨id', listed, home, looked⟩ := ih found
      exact ⟨id', by simpa using listed, by simpa [here] using home, by simpa [here] using looked⟩

theorem function?_isSome : (t.function? name).isSome = true ↔ name ∈ t.names.functions := by
  simp [function?, names]

theorem assign_bindings (scope : Scope) (value : Value) :
    (scope.assign name value).bindings.map (·.name) = scope.bindings.map (·.name) := by
  simp only [Scope.assign, List.map_map]
  refine List.map_congr_left fun symbol _ => ?_
  by_cases here : symbol.name = name <;> simp [here]

theorem namesIn_assign (value : Value) :
    namesIn (scopes.modify id fun scope => scope.assign name value) = namesIn scopes := by
  funext other
  simp only [namesIn, List.getElem?_modify]
  cases scopes[other]? with
  | none => rfl
  | some scope =>
    by_cases here : id = other
    · simp only [here, reduceIte, Option.map_eq_map, Option.map_some, assign_bindings]
    · simp [here]

theorem assign_names (value : Value) : (t.assign name value).names = t.names := by
  unfold assign
  split
  · rfl
  · simp only [names, namesIn_assign]

theorem assign_sound (sound : t.Sound) (value : Value) : (t.assign name value).Sound := by
  unfold assign
  split
  · exact sound
  · refine ⟨sound.distinct, fun id opened => ?_, sound.rooted⟩
    rw [List.length_modify]
    exact sound.inRange id opened

theorem declare?_names (sound : t.Sound) {fixed : Bool} {position : Position}
    (declared : t.declare? name fixed position = some t') :
    t'.names = t.names.declare [name] ∧ t'.Sound := by
  unfold declare? at declared
  split at declared
  · cases declared
  · cases declared
    have outside : ∀ other ∈ t.enclosing, t.current ≠ other := by
      rintro other member rfl
      exact (List.nodup_cons.1 sound.distinct).1 member
    have inside := sound.inRange t.current (by simp [path])
    refine ⟨?_, sound.distinct, fun id opened => ?_, sound.rooted⟩
    · simp only [names, Names.declare]
      congr 1
      · simp [namesIn, inside, Scope.declare]
      · refine List.map_congr_left fun other member => ?_
        simp [namesIn, outside other member]
    · rw [List.length_modify]
      exact sound.inRange id opened

theorem declareFunction?_isSome {parameters : List String} {position : Position} :
    (t.declareFunction? name parameters position).isSome = true ↔ name ∉ t.names.functions := by
  unfold declareFunction?
  rw [← function?_isSome]
  split <;> simp_all

theorem declareFunction?_names (sound : t.Sound) {parameters : List String} {position : Position}
    (declared : t.declareFunction? name parameters position = some t') :
    t'.names = t.names.register [name] ∧ t'.Sound := by
  unfold declareFunction? at declared
  split at declared
  · cases declared
  · cases declared
    refine ⟨?_, sound.distinct, sound.inRange, sound.rooted⟩
    simp only [names, Names.register, List.map_append, List.map_cons, List.map_nil]

theorem enter_sound (sound : t.Sound) : t.enter.Sound := by
  have fresh : t.scopes.length ∉ t.path := by
    intro opened
    exact Nat.lt_irrefl _ (sound.inRange _ opened)
  refine ⟨List.nodup_cons.2 ⟨fresh, sound.distinct⟩, ?_, ?_⟩
  · intro id opened
    simp only [enter, List.length_append, List.length_singleton]
    rcases List.mem_cons.1 opened with rfl | outer
    · exact Nat.lt_succ_self _
    · exact Nat.lt_succ_of_lt (sound.inRange id outer)
  · have last := sound.rooted
    simpa [enter, path] using last

theorem enter_names (sound : t.Sound) : t.enter.names = t.names.enter := by
  simp only [names, Names.enter, enter]
  congr 1
  · simp [namesIn]
  · have old : ∀ id ∈ t.path, namesIn (t.scopes ++ [⟨some t.current, []⟩]) id =
        namesIn t.scopes id := by
      intro id opened
      simp [namesIn, List.getElem?_append_left (sound.inRange id opened)]
    exact List.map_congr_left old

theorem exit_names : t.exit.names = t.names.exit := by
  unfold exit Names.exit
  simp only [names]
  split
  · rename_i outermost
    simp [outermost]
  · rename_i outer rest opened
    simp [opened]

theorem exit_sound (sound : t.Sound) : t.exit.Sound := by
  unfold exit
  split
  · exact sound
  · rename_i outer rest opened
    have same : t.path = t.current :: outer :: rest := by rw [path, opened]
    refine ⟨?_, fun id member => ?_, ?_⟩
    · have distinct := sound.distinct
      rw [same] at distinct
      exact (List.nodup_cons.1 distinct).2
    · exact sound.inRange id (by rw [same]; exact List.mem_cons_of_mem _ member)
    · have rooted := sound.rooted
      rwa [same, List.getLast?_cons_cons] at rooted

end SymbolTable

end Scriptlet
