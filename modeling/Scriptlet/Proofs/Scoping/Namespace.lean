import Scriptlet.Proofs.Analysis.Actions

/-!
Variables and functions share one namespace. In every state of every check, inside function bodies
and in programs with errors too, no variable of an open scope has the name of a function. A closed
scope may have one: its variables cannot be seen any more when the function takes the name.
-/

namespace Scriptlet

namespace SymbolTable

variable {t t' : SymbolTable} {id : ScopeId} {name : String}

-- The current scope and those that it is in, from parent to parent.
inductive Encloses (t : SymbolTable) : ScopeId → Prop
  | current : Encloses t t.current
  | parent {id outer : ScopeId} (inner : Encloses t id)
      (linked : t.parents[id]? = some (some outer)) : Encloses t outer

theorem Chain.parent {parents : List (Option ScopeId)} {first id outer : ScopeId}
    {path : List ScopeId} (chain : Chain parents first path) (member : id ∈ path)
    (linked : parents[id]? = some (some outer)) : outer ∈ path := by
  induction chain with
  | root alone =>
    rw [List.mem_singleton.1 member, alone] at linked
    cases linked
  | @link first next rest inside onward ih =>
    rcases List.mem_cons.1 member with rfl | member
    · rw [inside] at linked
      cases linked
      exact List.mem_cons_of_mem _ (List.mem_of_mem_head? onward.head)
    · exact List.mem_cons_of_mem _ (ih member)

theorem Encloses.mem_path (linked : t.Linked) (encloses : t.Encloses id) : id ∈ t.path := by
  induction encloses with
  | current => exact List.mem_cons_self
  | parent _ link ih => exact linked.chain.parent ih link

theorem Chain.encloses {id : ScopeId} {path : List ScopeId} (chain : Chain t.parents id path)
    (start : t.Encloses id) : ∀ other ∈ path, t.Encloses other := by
  induction chain with
  | root alone => simpa using start
  | link inside onward ih => exact List.forall_mem_cons.2 ⟨start, ih (start.parent inside)⟩

end SymbolTable

theorem Names.sees_exit {names : Names} {name : String} (seen : names.exit.Sees name) :
    names.Sees name := by
  unfold Names.exit at seen
  split at seen
  · exact seen
  · rename_i frame rest outer
    obtain ⟨other, listed, member⟩ := seen
    refine ⟨other, ?_, member⟩
    rw [Names.frames, outer]
    exact List.mem_cons_of_mem _ listed

theorem Names.exit_functions (names : Names) : names.exit.functions = names.functions := by
  unfold Names.exit
  split <;> rfl

namespace Analysis

variable {t t' : SymbolTable} {action : Action}

theorem Effect.apart (effect : Effect t action t') (sound : t.Sound) (apart : t.names.Apart) :
    t'.names.Apart := by
  cases effect with
  | none => exact apart
  | enter =>
    rw [SymbolTable.enter_names sound]
    intro name seen
    exact apart name (Names.sees_enter.1 seen)
  | exit =>
    rw [SymbolTable.exit_names]
    intro name seen
    rw [Names.exit_functions]
    exact apart name (Names.sees_exit seen)
  | declare free declared =>
    -- A new variable has the name of no function.
    rw [SymbolTable.assign_names, (SymbolTable.declare?_names sound declared).1]
    intro name seen
    rcases Names.sees_declare.1 seen with old | new
    · exact apart name old
    · cases List.mem_singleton.1 new
      intro defined
      have known := SymbolTable.function?_isSome.2 defined
      simp [free] at known
  | assign => rwa [SymbolTable.assign_names]
  | register unseen registered =>
    -- A new function has the name of no variable that can be seen.
    rw [(SymbolTable.declareFunction?_names sound registered).1]
    intro name seen defined
    rcases List.mem_append.1 defined with old | new
    · exact apart name seen old
    · cases List.mem_singleton.1 new
      have visible := SymbolTable.lookup?_isSome.2 seen
      simp [unseen] at visible

-- What every state of a check has.
structure Settled (t : SymbolTable) : Prop where
  sound : t.Sound
  linked : t.Linked
  apart : t.names.Apart

theorem reached_settled (program : List Stmt) (count : Nat) :
    Settled (reached program count).symbols := by
  apply run_symbols
  · intro t action t' effect settled
    exact ⟨effect.sound settled.sound, effect.linked settled.linked,
      effect.apart settled.sound settled.apart⟩
  · exact ⟨SymbolTable.empty_sound, SymbolTable.empty_linked, empty_orderly.apart⟩

-- No scope from the current one up to the outermost has a variable with the name of a function,
-- in any state on the way to the result of a check.
theorem variables_apart_from_functions (program : List Stmt) (count : Nat) :
    reached program (Stmt.actionsAll program).length = empty.checkAll false program ∧
    (reached program count).symbols.Encloses SymbolTable.globalScope ∧
    ∀ id, (reached program count).symbols.Encloses id →
      ∀ name, ((reached program count).symbols.variableIn? id name).isSome = true →
        (reached program count).symbols.function? name = none := by
  have settled := reached_settled program count
  refine ⟨reached_end program, ?_, ?_⟩
  · have outermost := List.mem_of_getLast? settled.sound.rooted
    exact settled.linked.chain.encloses .current _ outermost
  · intro id encloses name bound
    have opened := encloses.mem_path settled.linked
    have seen := SymbolTable.lookup?_isSome.1
      (List.findSome?_isSome_iff.2 ⟨id, opened, bound⟩)
    have unknown := settled.apart name seen
    rw [← SymbolTable.function?_isSome] at unknown
    simpa using unknown

end Analysis

end Scriptlet
