import Scriptlet.Proofs.Analysis.Actions

/-!
Bindings are stable. Whatever a check goes on to do, the scopes, variables and functions that are
in the table stay there as they were declared. Only values change, never that of a fixed variable,
and any other only by an assignment that has found this very variable. After each statement the
check is back in the scope where it was before.
-/

namespace Scriptlet

namespace SymbolTable

variable {t t' t'' : SymbolTable} {id : ScopeId} {name other : String} {value : Value}
  {symbol : Symbol} {fixed : Bool} {position : Position}

-- All that is in the table is in the later one, but for the values of variables that are not
-- fixed.
structure Keeps (t t' : SymbolTable) : Prop where
  scopes : t.parents <+: t'.parents
  bindings : ∀ id name symbol, t.variableIn? id name = some symbol →
    ∃ value, t'.variableIn? id name = some { symbol with value := value } ∧
      (symbol.fixed = true → value = symbol.value)
  functions : t.functions <+: t'.functions

theorem Keeps.refl : t.Keeps t :=
  ⟨List.prefix_rfl, fun _ _ symbol found => ⟨symbol.value, found, fun _ => rfl⟩, List.prefix_rfl⟩

theorem Keeps.trans (first : t.Keeps t') (second : t'.Keeps t'') : t.Keeps t'' := by
  refine ⟨first.scopes.trans second.scopes, ?_, first.functions.trans second.functions⟩
  intro id name symbol found
  obtain ⟨value, found, constant⟩ := first.bindings id name symbol found
  obtain ⟨value', found, constant'⟩ := second.bindings id name _ found
  exact ⟨value', found, fun fixed => (constant' fixed).trans (constant fixed)⟩

theorem Moves.parents (moved : t.Moves t') : t.parents <+: t'.parents := by
  cases moved with
  | enter => exact ⟨[some t.current], by simp [SymbolTable.parents, SymbolTable.enter]⟩
  | exit =>
    have unmoved : t.exit.parents = t.parents := by
      rcases t.exit_cases with outermost | ⟨same, -⟩
      · rw [outermost]
      · rw [SymbolTable.parents, same, SymbolTable.parents]
    exact unmoved ▸ List.prefix_rfl
  | change _ linked =>
    rw [SymbolTable.parents, SymbolTable.parents]
    exact modify_parents linked ▸ List.prefix_rfl
  | register functions => exact List.prefix_rfl

theorem variableIn?_name (found : t.variableIn? id name = some symbol) : symbol.name = name := by
  rw [variableIn?_eq] at found
  simpa using List.find?_some found

theorem variableIn?_assign : (t.assign name value).variableIn? id other =
    if t.home? name = some id then (t.variableIn? id other).map (Symbol.rebind name value)
    else t.variableIn? id other := by
  unfold assign
  cases home : t.home? name with
  | none => simp
  | some scope =>
    rw [variableIn?_eq, variableIn?_eq, bindingsIn_assign]
    by_cases here : scope = id
    · subst here
      rw [if_pos rfl, if_pos rfl, find?_rebind]
    · rw [if_neg here, if_neg (by simpa using here)]

theorem variableIn?_assign_other (found : t.variableIn? id other = some symbol)
    (elsewhere : ¬ (name = other ∧ t.home? name = some id)) :
    (t.assign name value).variableIn? id other = some symbol := by
  rw [variableIn?_assign, found]
  split
  · rename_i here
    have apart : symbol.name ≠ name := by
      rw [variableIn?_name found]
      exact fun same => elsewhere ⟨same.symm, here⟩
    rw [Option.map_some, Symbol.rebind, if_neg apart]
  · rfl

theorem variableIn?_declare (sound : t.Sound)
    (declared : t.declare? name fixed position = some t') :
    t'.variableIn? id other =
      if id = t.current ∧ other = name then some ⟨name, fixed, position, .empty⟩
      else t.variableIn? id other := by
  have fresh := declare?_new declared
  obtain ⟨scope, here⟩ : ∃ scope, t.scopes[t.current]? = some scope :=
    ⟨_, List.getElem?_eq_getElem (sound.inRange t.current List.mem_cons_self)⟩
  unfold declare? at declared
  split at declared
  · cases declared
  · cases declared
    simp only [variableIn?, bindingsIn, here, Option.map_some, Option.getD_some] at fresh ⊢
    rw [List.getElem?_modify]
    by_cases inner : id = t.current
    · subst inner
      simp only [here, Scope.find?, Scope.declare, List.find?_append, Option.map_some, reduceIte,
        Option.bind_some, Option.map_eq_map, true_and]
      by_cases same : other = name
      · subst same
        simp [fresh]
      · simp [same, Ne.symm same]
    · have elsewhere : t.current ≠ id := Ne.symm inner
      simp [inner, elsewhere]

-- A new variable is the innermost of its name, so it gets the value that is meant for it.
theorem home?_declare (sound : t.Sound) (declared : t.declare? name fixed position = some t') :
    t'.home? name = some t.current := by
  have here : t'.variableIn? t.current name = some ⟨name, fixed, position, .empty⟩ := by
    rw [variableIn?_declare sound declared, if_pos ⟨rfl, rfl⟩]
  have same : t'.current = t.current := by
    unfold declare? at declared
    split at declared
    · cases declared
    · cases declared
      rfl
  rw [home?, path, same, List.find?_cons_of_pos (by rw [here]; rfl)]

theorem variableIn?_declared (sound : t.Sound)
    (declared : t.declare? name fixed position = some t')
    (found : t.variableIn? id other = some symbol) :
    (t'.assign name value).variableIn? id other = some symbol := by
  have old : ¬ (id = t.current ∧ other = name) := by
    rintro ⟨rfl, rfl⟩
    rw [variableIn?_eq, declare?_new declared] at found
    cases found
  apply variableIn?_assign_other
  · rw [variableIn?_declare sound declared, if_neg old, found]
  · rw [home?_declare sound declared]
    rintro ⟨rfl, here⟩
    exact old ⟨(Option.some.inj here).symm, rfl⟩

end SymbolTable

namespace Analysis

-- The action is an assignment to the variable of that name in that scope.
def Action.Writes (t : SymbolTable) (id : ScopeId) (name : String) : Action → Prop
  | assignment target _ _ _ => target = name ∧ t.home? name = some id
  | _ => False

namespace Effect

variable {t t' : SymbolTable} {action : Action} {id : ScopeId} {name : String} {symbol : Symbol}

theorem variableIn? (effect : Effect t action t') (sound : t.Sound)
    (found : t.variableIn? id name = some symbol) :
    t'.variableIn? id name = some symbol ∨
      action.Writes t id name ∧ symbol.fixed = false ∧
        ∃ value, t'.variableIn? id name = some { symbol with value := value } := by
  cases effect with
  | none => exact .inl found
  | enter =>
    left
    have older : id < t.scopes.length := by
      unfold SymbolTable.variableIn? at found
      obtain ⟨scope, there, -⟩ := Option.bind_eq_some_iff.1 found
      exact (List.getElem?_eq_some_iff.1 there).1
    unfold SymbolTable.variableIn? SymbolTable.enter
    rw [List.getElem?_append_left older]
    exact found
  | exit =>
    left
    rcases t.exit_cases with outermost | ⟨same, -⟩
    · rwa [outermost]
    · rwa [SymbolTable.variableIn?, same]
  | declare _ declared => exact .inl (SymbolTable.variableIn?_declared sound declared found)
  | @assign target position op e seen value looked changeable =>
    by_cases own : target = name ∧ t.home? target = some id
    · right
      obtain ⟨rfl, home⟩ := own
      have same : seen = symbol := by
        rw [← SymbolTable.variableIn?_home?, home, Option.bind_some, found] at looked
        exact (Option.some.inj looked).symm
      have named := SymbolTable.variableIn?_name found
      refine ⟨⟨rfl, home⟩, same ▸ changeable, value, ?_⟩
      rw [SymbolTable.variableIn?_assign, if_pos home, found, Option.map_some, Symbol.rebind,
        if_pos named]
    · exact .inl (SymbolTable.variableIn?_assign_other found own)
  | register _ registered =>
    left
    unfold SymbolTable.declareFunction? at registered
    split at registered
    · cases registered
    · cases registered
      exact found

theorem functions (effect : Effect t action t') (sound : t.Sound) :
    t.functions <+: t'.functions := by
  cases effect with
  | none | enter => exact List.prefix_rfl
  | exit =>
    unfold SymbolTable.exit
    split <;> exact List.prefix_rfl
  | declare _ declared =>
    rw [SymbolTable.assign_functions]
    exact (SymbolTable.declare?_frames sound declared).2 ▸ List.prefix_rfl
  | assign => exact SymbolTable.assign_functions ▸ List.prefix_rfl
  | register _ registered =>
    rw [(SymbolTable.declareFunction?_frames registered).2]
    exact List.prefix_append ..

theorem keeps (effect : Effect t action t') (sound : t.Sound) : t.Keeps t' := by
  obtain ⟨middle, first, second⟩ := effect.moves
  refine ⟨first.parents.trans second.parents, ?_, effect.functions sound⟩
  intro id name symbol found
  rcases effect.variableIn? sound found with same | ⟨-, changeable, value, changed⟩
  · exact ⟨symbol.value, same, fun _ => rfl⟩
  · refine ⟨value, changed, fun fixed => ?_⟩
    rw [changeable] at fixed
    cases fixed

end Effect

theorem run_sound {a : Analysis} (sound : a.symbols.Sound) (actions : List Action) :
    (a.run actions).symbols.Sound :=
  run_symbols Effect.sound actions sound

theorem run_keeps {a : Analysis} (sound : a.symbols.Sound) (actions : List Action) :
    a.symbols.Keeps (a.run actions).symbols := by
  induction actions generalizing a with
  | nil => exact .refl
  | cons action rest ih =>
    have effect := perform_effect a action
    exact (effect.keeps sound).trans (ih (effect.sound sound))

-- What holds of a state when the check goes on with these statements.
structure Stable (a : Analysis) (later : List Stmt) : Prop where
  -- Nothing is lost, and nothing changes but values.
  kept : a.symbols.Keeps (a.checkAll a.inFunction later).symbols
  -- The check takes the actions of the statements one by one, and each leaves every variable as it
  -- was, unless it is an assignment that has found this variable.
  steps : a.checkAll a.inFunction later = a.run (Stmt.actionsAll later)
  written : ∀ before action after, Stmt.actionsAll later = before ++ action :: after →
    ∀ id name symbol, (a.run before).symbols.variableIn? id name = some symbol →
      ¬ action.Writes (a.run before).symbols id name →
      ((a.run before).perform action).symbols.variableIn? id name = some symbol
  -- After each statement the check is where it was.
  returns : ∀ before s after, later = before ++ s :: after →
    ((a.checkAll a.inFunction before).check a.inFunction s).symbols.current =
        (a.checkAll a.inFunction before).symbols.current ∧
      ((a.checkAll a.inFunction before).check a.inFunction s).functionDepth =
        (a.checkAll a.inFunction before).functionDepth

theorem reached_stable (program : List Stmt) (count : Nat) (later : List Stmt) :
    (reached program count).Stable later := by
  have sound : (reached program count).symbols.Sound := run_sound SymbolTable.empty_sound _
  generalize reached program count = a at sound
  obtain ⟨steps, -⟩ := checkAll_eq_run later a
  refine ⟨?_, steps, ?_, ?_⟩
  · rw [steps]
    exact run_keeps sound _
  · intro before action after split id name symbol found elsewhere
    have effect := perform_effect (a.run before) action
    rcases effect.variableIn? (run_sound sound before) found with same | ⟨writes, -⟩
    · exact same
    · exact absurd writes elsewhere
  · intro before s after split
    obtain ⟨early, path⟩ := checkAll_eq_run before a
    rw [early, ← inFunction_eq path]
    obtain ⟨done, path⟩ := check_eq_run s (a.run (Stmt.actionsAll before))
    rw [done]
    obtain ⟨current, enclosing⟩ := List.cons.inj path
    exact ⟨current, congrArg List.length enclosing⟩

end Analysis

end Scriptlet
