import Scriptlet.Scope.Table

namespace Scriptlet

-- A variable with its new value, if it is the one of that name.
def Symbol.rebind (name : String) (value : Value) (symbol : Symbol) : Symbol :=
  if symbol.name = name then { symbol with value := value } else symbol

theorem Symbol.rebind_name {name : String} {value : Value} {symbol : Symbol} :
    (symbol.rebind name value).name = symbol.name := by
  unfold rebind
  split <;> rfl

namespace SymbolTable

variable {bindings : List Symbol} {name x : String} {value : Value}

def flat (bindings : List Symbol) : SymbolTable := ⟨[⟨none, bindings⟩], globalScope, [], []⟩

theorem lookup?_flat : (flat bindings).lookup? name = bindings.find? (·.name = name) := by
  simp only [lookup?, path, flat, List.findSome?_cons, List.findSome?_nil]
  cases found : variableIn? ⟨[⟨none, bindings⟩], globalScope, [], []⟩ globalScope name with
  | none => exact found.symm
  | some symbol => exact found.symm

theorem global?_flat : (flat bindings).global? name = bindings.find? (·.name = name) := rfl

theorem declare?_flat {fixed : Bool} {position : Position} {t : SymbolTable}
    (declared : (flat bindings).declare? name fixed position = some t) :
    t = flat (bindings ++ [⟨name, fixed, position, .empty⟩]) ∧
      bindings.find? (·.name = name) = none := by
  unfold declare? at declared
  split at declared
  · cases declared
  · rename_i fresh
    cases declared
    exact ⟨rfl, fresh⟩

theorem find?_rebind : (bindings.map (Symbol.rebind name value)).find? (·.name = x) =
    (bindings.find? (·.name = x)).map (Symbol.rebind name value) := by
  rw [List.find?_map]
  congr 2
  funext symbol
  rw [Function.comp_apply, Symbol.rebind_name]

theorem find?_rebind_other {symbol : Symbol} (other : x ≠ name)
    (found : (bindings.map (Symbol.rebind name value)).find? (·.name = x) = some symbol) :
    bindings.find? (·.name = x) = some symbol := by
  rw [find?_rebind] at found
  obtain ⟨old, before, rfl⟩ := Option.map_eq_some_iff.1 found
  have called : old.name = x := by simpa using List.find?_some before
  rw [before, Symbol.rebind, if_neg (called ▸ other)]

theorem find?_rebind_own {symbol : Symbol}
    (found : (bindings.map (Symbol.rebind name value)).find? (·.name = name) = some symbol) :
    symbol.value = value := by
  rw [find?_rebind] at found
  obtain ⟨old, before, rfl⟩ := Option.map_eq_some_iff.1 found
  have called : old.name = name := by simpa using List.find?_some before
  rw [Symbol.rebind, if_pos called]

theorem assign_flat :
    (flat bindings).assign name value = flat (bindings.map (Symbol.rebind name value)) := by
  have looked : (flat bindings).variableIn? (flat bindings).current name =
      bindings.find? (·.name = name) := rfl
  cases found : bindings.find? (·.name = name) with
  | some symbol =>
    have home : (flat bindings).home? name = some globalScope :=
      List.find?_cons_of_pos (by rw [looked, found]; rfl)
    unfold assign
    rw [home]
    rfl
  | none =>
    have home : (flat bindings).home? name = none :=
      List.find?_cons_of_neg (by rw [looked, found]; exact Bool.false_ne_true)
    have same : bindings.map (Symbol.rebind name value) = bindings := by
      refine (List.map_congr_left fun symbol member => ?_).trans (List.map_id bindings)
      have other := List.find?_eq_none.1 found symbol member
      exact if_neg (by simpa using other)
    unfold assign
    rw [home, same]

end SymbolTable

end Scriptlet
