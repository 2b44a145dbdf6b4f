import Scriptlet.Proofs.Scope.Flat
import Scriptlet.Proofs.Scope.Names

/-!
A symbol table as a stack: the variables of each open scope, innermost first. What the operations
on tables do is simple on this stack, and the numbers of the scopes do not appear in it.
-/

namespace Scriptlet

-- Gives the innermost variable of that name a new value.
def rebindFirst (name : String) (value : Value) : List (List Symbol) → List (List Symbol)
  | [] => []
  | frame :: rest =>
    if (frame.find? (·.name = name)).isSome then frame.map (Symbol.rebind name value) :: rest
    else frame :: rebindFirst name value rest

namespace SymbolTable

variable {t t' : SymbolTable} {id other : ScopeId} {name : String} {value : Value}
  {scopes : List Scope}

-- The variables of the scope of that number.
def bindingsIn (scopes : List Scope) (id : ScopeId) : List Symbol :=
  (scopes[id]?.map (·.bindings)).getD []

def frames (t : SymbolTable) : List (List Symbol) := t.path.map (bindingsIn t.scopes)

theorem frames_eq :
    t.frames = bindingsIn t.scopes t.current :: t.enclosing.map (bindingsIn t.scopes) := rfl

theorem variableIn?_eq :
    t.variableIn? id name = (bindingsIn t.scopes id).find? (·.name = name) := by
  unfold variableIn? bindingsIn
  cases t.scopes[id]? with
  | none => rfl
  | some scope => rfl

theorem lookup?_eq :
    t.lookup? name = t.frames.findSome? fun frame => frame.find? (·.name = name) := by
  rw [lookup?, frames, List.findSome?_map]
  congr 1
  funext id
  exact variableIn?_eq

theorem lookup?_name {symbol : Symbol} (found : t.lookup? name = some symbol) :
    symbol.name = name := by
  rw [lookup?_eq] at found
  obtain ⟨frame, -, found⟩ := List.exists_of_findSome?_eq_some found
  simpa using List.find?_some found

theorem function?_name {f : FunctionSymbol} (found : t.function? name = some f) :
    f.name = name := by
  simpa using List.find?_some found

theorem lookup?_of_global (sound : t.Sound) (found : (t.global? name).isSome = true) :
    (t.lookup? name).isSome = true := by
  rw [lookup?, List.findSome?_isSome_iff]
  exact ⟨globalScope, List.mem_of_getLast? sound.rooted, found⟩

theorem bindingsIn_assign :
    bindingsIn (scopes.modify id fun scope => scope.assign name value) other =
      if id = other then (bindingsIn scopes id).map (Symbol.rebind name value)
      else bindingsIn scopes other := by
  simp only [bindingsIn, List.getElem?_modify]
  by_cases here : id = other
  · subst here
    cases scopes[id]? with
    | none => simp
    | some scope => simp [Scope.assign, Symbol.rebind]
  · cases scopes[other]? <;> simp [here]

theorem rebindFirst_absent {frames : List (List Symbol)}
    (absent : ∀ frame ∈ frames, (frame.find? (·.name = name)).isSome = false) :
    rebindFirst name value frames = frames := by
  induction frames with
  | nil => rfl
  | cons frame rest ih =>
    rw [List.forall_mem_cons] at absent
    rw [rebindFirst, absent.1, ih absent.2]
    simp

theorem map_bindingsIn_assign {path : List ScopeId} (distinct : path.Nodup)
    (home : path.find? (fun id => ((bindingsIn scopes id).find? (·.name = name)).isSome) =
      some id) :
    path.map (bindingsIn (scopes.modify id fun scope => scope.assign name value)) =
      rebindFirst name value (path.map (bindingsIn scopes)) := by
  induction path with
  | nil => cases home
  | cons first rest ih =>
    obtain ⟨apart, distinct⟩ := List.nodup_cons.1 distinct
    rw [List.map_cons, List.map_cons, rebindFirst, bindingsIn_assign]
    rw [List.find?_cons] at home
    cases has : ((bindingsIn scopes first).find? (·.name = name)).isSome with
    | true =>
      simp only [has, Option.some.injEq] at home
      subst home
      simp only [reduceIte]
      congr 1
      refine List.map_congr_left fun other member => ?_
      rw [bindingsIn_assign, if_neg]
      rintro rfl
      exact apart member
    | false =>
      simp only [has] at home
      have elsewhere : id ≠ first := by
        rintro rfl
        exact apart (List.mem_of_find?_eq_some home)
      simp only [elsewhere, Bool.false_eq_true, reduceIte]
      rw [ih distinct home]

theorem assign_frames (sound : t.Sound) :
    (t.assign name value).frames = rebindFirst name value t.frames := by
  have home : t.home? name =
      t.path.find? fun id => ((bindingsIn t.scopes id).find? (·.name = name)).isSome := by
    rw [home?]
    congr 1
    funext id
    rw [variableIn?_eq]
  unfold assign
  cases found : t.home? name with
  | none =>
    rw [home, List.find?_eq_none] at found
    refine (rebindFirst_absent fun frame member => ?_).symm
    obtain ⟨id, opened, rfl⟩ := List.mem_map.1 member
    exact Bool.eq_false_iff.2 (found id opened)
  | some id => exact map_bindingsIn_assign sound.distinct (home ▸ found)

theorem assign_functions : (t.assign name value).functions = t.functions := by
  unfold assign
  split <;> rfl

theorem declare?_eq_none {fixed : Bool} {position : Position} :
    t.declare? name fixed position = none ↔
      ((bindingsIn t.scopes t.current).find? (·.name = name)).isSome = true := by
  unfold declare?
  rw [← variableIn?_eq]
  cases t.variableIn? t.current name <;> simp

theorem declare?_new {fixed : Bool} {position : Position}
    (declared : t.declare? name fixed position = some t') :
    (bindingsIn t.scopes t.current).find? (·.name = name) = none := by
  unfold declare? at declared
  split at declared
  · cases declared
  · rename_i absent
    rwa [variableIn?_eq] at absent

theorem declare?_frames (sound : t.Sound) {fixed : Bool} {position : Position}
    (declared : t.declare? name fixed position = some t') :
    t'.frames = (bindingsIn t.scopes t.current ++ [⟨name, fixed, position, .empty⟩]) ::
        t.enclosing.map (bindingsIn t.scopes) ∧
      t'.functions = t.functions := by
  unfold declare? at declared
  split at declared
  · cases declared
  · cases declared
    refine ⟨?_, rfl⟩
    have outside : ∀ other ∈ t.enclosing, t.current ≠ other := by
      rintro other member rfl
      exact (List.nodup_cons.1 sound.distinct).1 member
    have inside := sound.inRange t.current (by simp [path])
    rw [frames_eq]
    congr 1
    · simp [bindingsIn, inside, Scope.declare]
    · refine List.map_congr_left fun other member => ?_
      simp [bindingsIn, outside other member]

theorem declareFunction?_frames {parameters : List String} {position : Position}
    (declared : t.declareFunction? name parameters position = some t') :
    t'.frames = t.frames ∧ t'.functions = t.functions ++ [⟨name, parameters, position⟩] := by
  unfold declareFunction? at declared
  split at declared
  · cases declared
  · cases declared
    exact ⟨rfl, rfl⟩

theorem enter_frames (sound : t.Sound) : t.enter.frames = [] :: t.frames := by
  rw [frames_eq]
  congr 1
  · simp [bindingsIn, enter]
  · refine List.map_congr_left fun id opened => ?_
    simp [bindingsIn, enter, List.getElem?_append_left (sound.inRange id opened)]

theorem exit_frames (nested : t.enclosing ≠ []) : t.exit.frames = t.frames.tail := by
  unfold exit
  split
  · rename_i outermost
    exact absurd outermost nested
  · rename_i outer rest opened
    rw [frames_eq, frames_eq, opened]
    rfl

end SymbolTable

end Scriptlet
