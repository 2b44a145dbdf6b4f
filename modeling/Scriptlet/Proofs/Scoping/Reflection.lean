import Scriptlet.Proofs.Analysis.Reduced
import Scriptlet.Proofs.Scope.Frames
import Scriptlet.Proofs.Scoping.Rules

/-!
The table of symbols as a reading of the mentions so far: its open scopes are the bodies around,
with the variables that these have declared, and its functions are those of all bodies. What the
table answers is what the rules ask, and each operation on it reads one more mention.
-/

namespace Scriptlet

-- What the rules see of a variable, and of a function.
def Symbol.outline (s : Symbol) : String × Bool := (s.name, s.fixed)

def FunctionSymbol.outline (f : FunctionSymbol) : String × Nat := (f.name, f.arity)

structure Reflects (t : SymbolTable) (before : List Mention) (place : Place) : Prop where
  sound : t.Sound
  frames : t.frames.map (·.map Symbol.outline) = place.tails.map (variablesAt before)
  functions : t.functions.map FunctionSymbol.outline = functionsOf before
  allowed : AllowedAfter [] before

section

variable {α : Type} {rows : List (String × α)} {name : String} {value : α}

theorem find?_key_isSome : (rows.find? (·.1 = name)).isSome = true ↔ name ∈ rows.map (·.1) := by
  simp

theorem find?_key_fst {row : String × α} (found : rows.find? (·.1 = name) = some row) :
    row.1 = name := by
  simpa using List.find?_some found

theorem find?_key_eq_some (distinct : (rows.map (·.1)).Nodup) :
    rows.find? (·.1 = name) = some (name, value) ↔ (name, value) ∈ rows := by
  refine ⟨List.mem_of_find?_eq_some, fun listed => ?_⟩
  have found := find?_key_isSome.2 (List.mem_map.2 ⟨_, listed, rfl⟩)
  obtain ⟨row, found⟩ := Option.isSome_iff_exists.1 found
  have same : row = (name, value) :=
    List.inj_on_of_nodup_map distinct (List.mem_of_find?_eq_some found) listed (find?_key_fst found)
  exact same ▸ found

end

-- The innermost declaration of a name that a body can see.
def visible? (before : List Mention) (place : Place) (name : String) : Option (String × Bool) :=
  place.tails.findSome? fun body => (variablesAt before body).find? (·.1 = name)

section

variable {before mentions : List Mention} {place : Place} {name : String}

theorem visible?_isSome : (visible? before place name).isSome = true ↔
    ∃ body, body <:+ place ∧ name ∈ namesAt before body := by
  simp only [visible?, List.findSome?_isSome_iff, List.mem_tails, find?_key_isSome, namesAt]

theorem visible?_nil :
    visible? before [] name = (variablesAt before []).find? (·.1 = name) := by
  simp [visible?]

theorem visible?_cons {index : Nat} : visible? before (index :: place) name =
    ((variablesAt before (index :: place)).find? (·.1 = name)).or (visible? before place name) := by
  rw [visible?, List.tails_cons, List.findSome?_cons]
  cases (variablesAt before (index :: place)).find? (·.1 = name) <;> rfl

-- A variable can be assigned to if the first declaration that is seen from the inside has it as
-- one that is not fixed.
theorem visible?_eq_some (distinct : ∀ body, (namesAt before body).Nodup) :
    visible? before place name = some (name, false) ↔
      Mention.Allowed before ⟨place, .assigns name⟩ := by
  simp only [Mention.Allowed]
  induction place with
  | nil =>
    simp only [visible?_nil, find?_key_eq_some (distinct []), List.suffix_nil, exists_eq_left,
      forall_eq, implies_true, and_true]
  | cons index place ih =>
    rw [visible?_cons]
    cases here : (variablesAt before (index :: place)).find? (·.1 = name) with
    | some row =>
      rw [Option.some_or, ← here, find?_key_eq_some (distinct _)]
      have named : name ∈ namesAt before (index :: place) :=
        List.mem_map.2 ⟨row, List.mem_of_find?_eq_some here, find?_key_fst here⟩
      constructor
      · intro listed
        exact ⟨_, List.suffix_rfl, listed, fun body inside _ => inside⟩
      · rintro ⟨home, inside, listed, innermost⟩
        have outer := (innermost _ List.suffix_rfl named).length_le
        rwa [← inside.eq_of_length_le outer]
    | none =>
      have unnamed : name ∉ namesAt before (index :: place) := by
        rw [namesAt, ← find?_key_isSome, here]
        simp
      rw [Option.none_or, ih]
      constructor
      · rintro ⟨home, inside, listed, innermost⟩
        refine ⟨home, inside.trans (List.suffix_cons ..), listed, fun body around seen => ?_⟩
        rcases List.suffix_cons_iff.1 around with rfl | around
        · exact absurd seen unnamed
        · exact innermost body around seen
      · rintro ⟨home, inside, listed, innermost⟩
        rcases List.suffix_cons_iff.1 inside with rfl | inside
        · exact absurd (List.mem_map.2 ⟨_, listed, rfl⟩) unnamed
        · exact ⟨home, inside, listed, fun body around => innermost body
            (around.trans (List.suffix_cons ..))⟩

end

theorem map_tails_declares {before : List Mention} {place : Place} {name : String} {fixed : Bool} :
    place.tails.map (variablesAt (before ++ [⟨place, .declares name fixed⟩])) =
      (variablesAt before place ++ [(name, fixed)]) ::
        (place.tails.map (variablesAt before)).tail := by
  have here : variablesAt (before ++ [⟨place, .declares name fixed⟩]) place =
      variablesAt before place ++ [(name, fixed)] := by
    rw [variablesAt_append, variablesAt_declares, if_pos rfl]
  cases place with
  | nil => rw [List.tails, List.map_singleton, here]; rfl
  | cons index place =>
    rw [List.tails_cons, List.map_cons, List.map_cons, List.tail_cons, here]
    congr 1
    refine List.map_congr_left fun body around => ?_
    have shorter := ((List.mem_tails ..).1 around).length_le
    rw [variablesAt_append, variablesAt_declares, if_neg, List.append_nil]
    rintro rfl
    exact Nat.not_succ_le_self _ shorter

theorem rebindFirst_outline {name : String} {value : Value} {frames : List (List Symbol)} :
    (rebindFirst name value frames).map (·.map Symbol.outline) =
      frames.map (·.map Symbol.outline) := by
  have same : Symbol.outline ∘ Symbol.rebind name value = Symbol.outline := by
    funext symbol
    unfold Symbol.rebind
    rw [Function.comp_apply]
    split <;> rfl
  induction frames with
  | nil => rfl
  | cons frame rest ih =>
    rw [rebindFirst]
    split
    · rw [List.map_cons, List.map_cons, List.map_map, same]
    · rw [List.map_cons, List.map_cons, ih]

namespace Reflects

variable {t t' : SymbolTable} {before mentions : List Mention} {place : Place} {name : String}

theorem empty : Reflects .empty [] [] :=
  ⟨SymbolTable.empty_sound, rfl, rfl, trivial⟩

theorem distinct (reflects : Reflects t before place) (body : Place) :
    (namesAt before body).Nodup :=
  reflects.allowed.namesAt_nodup (by simp [namesAt, variablesAt])

theorem functionsDistinct (reflects : Reflects t before place) : (functionNames before).Nodup :=
  reflects.allowed.functionNames_nodup (by simp [functionNames, functionsOf])

theorem lookup?_outline (reflects : Reflects t before place) :
    (t.lookup? name).map Symbol.outline = visible? before place name := by
  have each : Option.map Symbol.outline ∘ (fun frame : List Symbol => frame.find? (·.name = name)) =
      (fun rows : List (String × Bool) => rows.find? (·.1 = name)) ∘ (·.map Symbol.outline) := by
    funext frame
    rw [Function.comp_apply, Function.comp_apply, List.find?_map]
    rfl
  rw [SymbolTable.lookup?_eq, List.map_findSome?, each, ← List.findSome?_map, reflects.frames,
    List.findSome?_map]
  rfl

theorem function?_outline (reflects : Reflects t before place) :
    (t.function? name).map FunctionSymbol.outline =
      (functionsOf before).find? (·.1 = name) := by
  rw [← reflects.functions, List.find?_map]
  rfl

theorem lookup?_isSome (reflects : Reflects t before place) : (t.lookup? name).isSome = true ↔
    ∃ body, body <:+ place ∧ name ∈ namesAt before body := by
  rw [← visible?_isSome, ← reflects.lookup?_outline, Option.isSome_map]

theorem function?_isSome (reflects : Reflects t before place) :
    (t.function? name).isSome = true ↔ name ∈ functionNames before := by
  rw [functionNames, ← find?_key_isSome, ← reflects.function?_outline, Option.isSome_map]

theorem assignable (reflects : Reflects t before place) :
    (∃ symbol, t.lookup? name = some symbol ∧ symbol.fixed = false) ↔
      Mention.Allowed before ⟨place, .assigns name⟩ := by
  rw [← visible?_eq_some reflects.distinct, ← reflects.lookup?_outline, Option.map_eq_some_iff]
  refine exists_congr fun symbol => and_congr_right fun found => ?_
  have named : symbol.name = name := SymbolTable.lookup?_name found
  simp [Symbol.outline, named]

theorem callFlaw?_eq_none (reflects : Reflects t before place) {count : Nat}
    {position : Position} :
    t.callFlaw? name count position = none ↔ (name, count) ∈ functionsOf before := by
  rw [← find?_key_eq_some reflects.functionsDistinct, ← reflects.function?_outline,
    Option.map_eq_some_iff, SymbolTable.callFlaw?]
  cases found : t.function? name with
  | none => simp
  | some f =>
    have named : f.name = name := SymbolTable.function?_name found
    by_cases fits : f.arity = count <;> simp [FunctionSymbol.outline, fits, named]

theorem here (reflects : Reflects t before place) :
    (SymbolTable.bindingsIn t.scopes t.current).map Symbol.outline = variablesAt before place := by
  have frames := reflects.frames
  cases place with
  | nil | cons index place => exact (List.cons.inj frames).1

theorem declare?_eq_none (reflects : Reflects t before place) {fixed : Bool}
    {position : Position} :
    t.declare? name fixed position = none ↔ name ∈ namesAt before place := by
  rw [SymbolTable.declare?_eq_none, namesAt, ← find?_key_isSome, ← reflects.here, List.find?_map,
    Option.isSome_map]
  rfl

theorem declareFunction?_eq_none (reflects : Reflects t before place) {parameters : List String}
    {position : Position} :
    t.declareFunction? name parameters position = none ↔ name ∈ functionNames before := by
  rw [← reflects.function?_isSome, SymbolTable.declareFunction?]
  cases t.function? name <;> simp

theorem quiet (reflects : Reflects t before place) (quiet : ∀ m ∈ mentions, m.Quiet)
    (allowed : AllowedAfter before mentions) : Reflects t (before ++ mentions) place := by
  refine ⟨reflects.sound, ?_, ?_, allowedAfter_append.2 ⟨reflects.allowed, allowed⟩⟩
  · rw [variablesAt_append_quiet quiet]
    exact reflects.frames
  · rw [functionsOf_append_quiet quiet]
    exact reflects.functions

theorem assign (reflects : Reflects t before place) (value : Value) :
    Reflects (t.assign name value) before place := by
  refine ⟨SymbolTable.assign_sound reflects.sound value, ?_, ?_, reflects.allowed⟩
  · rw [SymbolTable.assign_frames reflects.sound, rebindFirst_outline]
    exact reflects.frames
  · rw [SymbolTable.assign_functions]
    exact reflects.functions

theorem declare (reflects : Reflects t before place) {fixed : Bool} {position : Position}
    (declared : t.declare? name fixed position = some t')
    (allowed : Mention.Allowed before ⟨place, .declares name fixed⟩) :
    Reflects t' (before ++ [⟨place, .declares name fixed⟩]) place := by
  obtain ⟨frames, functions⟩ := SymbolTable.declare?_frames reflects.sound declared
  have sound := (SymbolTable.declare?_names reflects.sound declared).2
  refine ⟨sound, ?_, ?_, allowedAfter_append.2 ⟨reflects.allowed, ?_⟩⟩
  · have around := congrArg List.tail reflects.frames
    rw [SymbolTable.frames_eq, List.map_cons, List.tail_cons] at around
    rw [frames, map_tails_declares, List.map_cons, List.map_append, reflects.here, around]
    rfl
  · rw [functions, functionsOf_append, reflects.functions]
    exact (List.append_nil _).symm
  · exact allowedAfter_singleton.2 allowed

theorem define (reflects : Reflects t before place) {parameters : List String}
    {position : Position} (defined : t.declareFunction? name parameters position = some t')
    (allowed : Mention.Allowed before ⟨place, .defines name parameters.length⟩) :
    Reflects t' (before ++ [⟨place, .defines name parameters.length⟩]) place := by
  obtain ⟨frames, functions⟩ := SymbolTable.declareFunction?_frames defined
  have sound := (SymbolTable.declareFunction?_names reflects.sound defined).2
  refine ⟨sound, ?_, ?_, allowedAfter_append.2 ⟨reflects.allowed, ?_⟩⟩
  · have same : variablesAt (before ++ [⟨place, .defines name parameters.length⟩]) =
        variablesAt before := by
      funext other
      rw [variablesAt_append, variablesAt_defines, List.append_nil]
    rw [frames, same]
    exact reflects.frames
  · rw [functions, functionsOf_append, List.map_append, reflects.functions]
    rfl
  · exact allowedAfter_singleton.2 allowed

theorem enter (reflects : Reflects t before place) {index : Nat}
    (fresh : variablesAt before (index :: place) = []) :
    Reflects t.enter before (index :: place) := by
  refine ⟨SymbolTable.enter_sound reflects.sound, ?_, reflects.functions, reflects.allowed⟩
  rw [SymbolTable.enter_frames reflects.sound, List.tails_cons, List.map_cons, List.map_cons, fresh,
    reflects.frames]
  rfl

theorem exit {index : Nat} (reflects : Reflects t before (index :: place)) :
    Reflects t.exit before place := by
  have nested : t.enclosing ≠ [] := by
    intro outermost
    have frames := congrArg List.length reflects.frames
    simp [SymbolTable.frames_eq, outermost] at frames
  have functions : t.exit.functions = t.functions := by
    unfold SymbolTable.exit
    split <;> rfl
  refine ⟨SymbolTable.exit_sound reflects.sound, ?_, ?_, reflects.allowed⟩
  · rw [SymbolTable.exit_frames nested, List.map_tail, reflects.frames]
    rfl
  · rw [functions]
    exact reflects.functions

end Reflects

end Scriptlet
