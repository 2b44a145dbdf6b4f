import Scriptlet.Proofs.Analysis.Actions
import Scriptlet.Proofs.Analysis.Reduced
import Scriptlet.Proofs.Grammar.Literals

/-!
What all values of an analysis have in common. A property that the literals of a program have, and
that no operator and no cast leads out of, holds of every value on file and of every variable of
every scope, open or closed, after each action of the check.
-/

namespace Scriptlet

-- A property of values that every operation keeps.
structure Value.Kept (holds : Value → Prop) : Prop where
  unknown : holds .unknown
  empty : holds .empty
  list : ∀ {vs}, (∀ v ∈ vs, holds v) → holds (.list vs)
  binary : ∀ {op v w u}, holds v → holds w → Value.applyBinary op v w = .ok u → holds u
  unary : ∀ {op v u}, holds v → Value.applyUnary op v = .ok u → holds u
  cast : ∀ {target v u}, holds v → Value.castTo target v = .ok u → holds u

variable {holds : Value → Prop}

-- The literals of the expression have the property.
def Expr.Throughout (holds : Value → Prop) (e : Expr) : Prop :=
  ∀ row ∈ e.literals, holds row.2.value

def SymbolTable.Throughout (holds : Value → Prop) (t : SymbolTable) : Prop :=
  ∀ scope ∈ t.scopes, ∀ symbol ∈ scope.bindings, holds symbol.value

def Analysis.Filed (holds : Value → Prop) (values : NodeValues) : Prop :=
  ∀ (id : NodeId) (v : Value), values[id]? = some v → holds v

structure Analysis.Throughout (holds : Value → Prop) (a : Analysis) : Prop where
  values : Filed holds a.values
  targets : Filed holds a.targets
  symbols : a.symbols.Throughout holds

namespace SymbolTable

variable {t t' : SymbolTable} {name : String} {value : Value}

theorem Throughout.lookup? (all : t.Throughout holds) {symbol : Symbol}
    (found : t.lookup? name = some symbol) : holds symbol.value := by
  obtain ⟨id, -, found⟩ := List.exists_of_findSome?_eq_some found
  obtain ⟨scope, stored, found⟩ := Option.bind_eq_some_iff.1 found
  exact all scope (List.mem_of_getElem? stored) symbol (List.mem_of_find?_eq_some found)

theorem Throughout.modify (all : t.Throughout holds) {id : ScopeId} {f : Scope → Scope}
    (changed : ∀ scope ∈ t.scopes, ∀ symbol ∈ (f scope).bindings, holds symbol.value) :
    Throughout holds { t with scopes := t.scopes.modify id f } := by
  intro scope listed
  obtain ⟨k, stored⟩ := List.mem_iff_getElem?.1 listed
  rw [List.getElem?_modify] at stored
  obtain ⟨old, found, rfl⟩ := Option.map_eq_some_iff.1 stored
  by_cases here : id = k
  · rw [if_pos here]
    exact changed old (List.mem_of_getElem? found)
  · rw [if_neg here]
    exact all old (List.mem_of_getElem? found)

theorem Throughout.assign (all : t.Throughout holds) (new : holds value) :
    (t.assign name value).Throughout holds := by
  unfold SymbolTable.assign
  split
  · exact all
  · refine all.modify fun scope listed symbol bound => ?_
    obtain ⟨old, found, rfl⟩ := List.mem_map.1 bound
    split
    · exact new
    · exact all scope listed old found

theorem Throughout.declare? (all : t.Throughout holds) {fixed : Bool} {position : Position}
    (new : holds .empty) (declared : t.declare? name fixed position = some t') :
    t'.Throughout holds := by
  unfold SymbolTable.declare? at declared
  split at declared
  · cases declared
  · cases declared
    refine all.modify fun scope listed => ?_
    exact List.forall_mem_append.2 ⟨all scope listed, List.forall_mem_singleton.2 new⟩

theorem Throughout.declareFunction? (all : t.Throughout holds) {parameters : List String}
    {position : Position} (declared : t.declareFunction? name parameters position = some t') :
    t'.Throughout holds := by
  unfold SymbolTable.declareFunction? at declared
  split at declared
  · cases declared
  · cases declared
    exact all

theorem Throughout.enter (all : t.Throughout holds) : t.enter.Throughout holds := by
  have fresh : ∀ symbol ∈ ([] : List Symbol), holds symbol.value := by simp
  exact List.forall_mem_append.2 ⟨all, List.forall_mem_singleton.2 fresh⟩

theorem Throughout.exit (all : t.Throughout holds) : t.exit.Throughout holds := by
  unfold SymbolTable.exit
  split <;> exact all

end SymbolTable

section Kept

variable (kept : Value.Kept holds)

include kept

theorem Value.Kept.settled {outcome : Except ValueFailure Value}
    (each : ∀ u, outcome = .ok u → holds u) : holds (.settled outcome) := by
  cases outcome with
  | error failure => exact kept.unknown
  | ok u => exact each u rfl

namespace Expr

variable {t : SymbolTable} {e n : Expr} {known : Expr → Value}

theorem settled_throughout (table : t.Throughout holds)
    (written : ∀ row ∈ n.literal?.toList, holds row.2.value)
    (parts : ∀ part ∈ n.parts, holds (known part)) : holds (n.settled t known) := by
  cases n with
  | literal node value => exact written _ (List.mem_singleton.2 rfl)
  | identifier node name =>
    rw [settled]
    cases found : t.lookup? name with
    | none => exact kept.unknown
    | some symbol => exact table.lookup? found
  | call node callee span arguments => exact kept.unknown
  | list node items => exact kept.list (List.forall_mem_map.2 parts)
  | binary node op left right =>
    have l : holds (known left) := parts left (by simp [Expr.parts])
    have r : holds (known right) := parts right (by simp [Expr.parts])
    exact kept.settled fun _ result => kept.binary l r result
  | unary node op operand =>
    have inner : holds (known operand) := parts operand (List.mem_singleton.2 rfl)
    exact kept.settled fun _ result => kept.unary inner result
  | cast node target operand =>
    have inner : holds (known operand) := parts operand (List.mem_singleton.2 rfl)
    exact kept.settled fun _ result => kept.cast inner result
  | grouping node inner => exact parts inner (List.mem_singleton.2 rfl)

theorem nodes_throughout (table : t.Throughout holds) (written : e.Throughout holds) :
    ∀ n ∈ e.nodes, holds (n.valueIn t) := by
  induction e using induction_on_parts with
  | whole e ih =>
    unfold Expr.Throughout at written
    rw [literals_eq, List.forall_mem_append, List.forall_mem_flatMap] at written
    rw [nodes_eq, List.forall_mem_append, List.forall_mem_flatMap]
    have below : ∀ part ∈ e.parts, ∀ n ∈ part.nodes, holds (n.valueIn t) :=
      fun part listed => ih part listed (written.1 part listed)
    refine ⟨below, List.forall_mem_singleton.2 ?_⟩
    rw [valueIn_eq]
    exact settled_throughout kept table written.2
      fun part listed => below part listed part part.self_mem_nodes

theorem valueIn_throughout (table : t.Throughout holds) (written : e.Throughout holds) :
    holds (e.reduce t).value :=
  nodes_throughout kept table written e e.self_mem_nodes

end Expr

namespace Analysis

variable {a : Analysis} {e : Expr} {values : NodeValues}

omit kept in
theorem Filed.insert (filed : Filed holds values) {id : NodeId} {value : Value}
    (new : holds value) : Filed holds (values.insert id value) := by
  intro other v found
  rw [Std.TreeMap.getElem?_insert] at found
  split at found
  · cases found
    exact new
  · exact filed other v found

omit kept in
theorem Filed.note (filed : Filed holds values) {notes : List (NodeId × Value)}
    (new : ∀ row ∈ notes, holds row.2) : Filed holds (note values notes) := by
  induction notes generalizing values with
  | nil => exact filed
  | cons row rest ih =>
    rw [List.forall_mem_cons] at new
    exact ih (filed.insert new.1) new.2

theorem Throughout.evaluate (all : a.Throughout holds) (written : e.Throughout holds) :
    (a.evaluate e).Throughout holds := by
  refine ⟨all.values.note ?_, all.targets, all.symbols⟩
  rw [e.reduce_notes, List.forall_mem_map]
  exact Expr.nodes_throughout kept all.symbols written

theorem Throughout.declare (all : a.Throughout holds) {name : String} {fixed : Bool}
    {position : Position} {repeated : Diagnostic} {value : Value} (new : holds value) :
    (a.declare name fixed position repeated value).Throughout holds := by
  unfold Analysis.declare
  split
  · exact ⟨all.values, all.targets, all.symbols⟩
  · split
    · exact ⟨all.values, all.targets, all.symbols⟩
    · rename_i declared
      exact ⟨all.values, all.targets, (all.symbols.declare? kept.empty declared).assign new⟩

theorem Throughout.checkDeclarator (all : a.Throughout holds) {fixed : Bool} {d : Declarator}
    (written : ∀ e ∈ d.value.toList, e.Throughout holds) :
    (checkDeclarator fixed a d).Throughout holds := by
  unfold Analysis.checkDeclarator
  dsimp only
  cases found : d.value with
  | none => exact all.declare kept kept.empty
  | some e =>
    have own : e.Throughout holds := written e (by simp [found])
    exact (all.evaluate kept own).declare kept (Expr.valueIn_throughout kept all.symbols own)

theorem combine_throughout {op : Arithmetic} {previous value : Value} {position : Position}
    (before : holds previous) (operand : holds value) :
    holds (combine op previous value position).1 := by
  unfold combine
  split
  · rename_i result
    exact kept.binary before operand result
  · exact kept.unknown

theorem Throughout.checkAssignment (all : a.Throughout holds) {name : String} {position : Position}
    {op : AssignOp} (written : e.Throughout holds) :
    (a.checkAssignment name position op e).Throughout holds := by
  have after := all.evaluate kept written
  have new := Expr.valueIn_throughout kept all.symbols written
  unfold Analysis.checkAssignment
  dsimp only
  split
  · exact ⟨after.values, after.targets, after.symbols⟩
  · rename_i symbol found
    have old := all.symbols.lookup? found
    split
    · exact ⟨after.values, after.targets, after.symbols⟩
    · cases op with
      | assign => exact ⟨after.values, after.targets, after.symbols.assign new⟩
      | compound op =>
        exact ⟨after.values, after.targets.insert old,
          after.symbols.assign (combine_throughout kept old new)⟩

omit kept in
theorem Throughout.register (all : a.Throughout holds) {name : String} {parameters : List String}
    {position : Position} : (a.register name parameters position).Throughout holds := by
  unfold Analysis.register
  split
  · exact ⟨all.values, all.targets, all.symbols⟩
  · split
    · exact ⟨all.values, all.targets, all.symbols⟩
    · split
      · exact ⟨all.values, all.targets, all.symbols⟩
      · rename_i declared
        exact ⟨all.values, all.targets, all.symbols.declareFunction? declared⟩

-- The expressions that an action evaluates.
def Action.roots : Action → List Expr
  | .declarator _ d => d.value.toList
  | .assignment _ _ _ value | .throw _ value | .evaluate value => [value]
  | .register .. | .enter | .parameter .. | .exit => []

theorem Throughout.perform (all : a.Throughout holds) {action : Action}
    (written : ∀ e ∈ action.roots, e.Throughout holds) : (a.perform action).Throughout holds := by
  cases action with
  | declarator fixed d => exact all.checkDeclarator kept written
  | assignment name position op value =>
    exact all.checkAssignment kept (List.forall_mem_singleton.1 written)
  | register name parameters position => exact all.register
  | enter => exact ⟨all.values, all.targets, all.symbols.enter⟩
  | parameter function p => exact all.declare kept kept.unknown
  | exit => exact ⟨all.values, all.targets, all.symbols.exit⟩
  | throw position value =>
    have after := all.evaluate kept (List.forall_mem_singleton.1 written)
    rw [Analysis.perform]
    split
    · exact after
    · exact ⟨after.values, after.targets, after.symbols⟩
  | evaluate value => exact all.evaluate kept (List.forall_mem_singleton.1 written)

theorem Throughout.run (all : a.Throughout holds) {actions : List Action}
    (written : ∀ action ∈ actions, ∀ e ∈ action.roots, e.Throughout holds) :
    (a.run actions).Throughout holds := by
  induction actions generalizing a with
  | nil => exact all
  | cons action rest ih =>
    rw [List.forall_mem_cons] at written
    exact ih (all.perform kept written.1) written.2

end Analysis

end Kept

namespace Analysis

theorem empty_throughout : empty.Throughout holds := by
  refine ⟨?_, ?_, ?_⟩
  · intro id v found
    simp [empty] at found
  · intro id v found
    simp [empty] at found
  · intro scope listed symbol bound
    cases List.mem_singleton.1 listed
    cases bound

end Analysis

mutual

theorem Stmt.roots_actions : ∀ s : Stmt, s.actions.flatMap Analysis.Action.roots = s.roots
  | .declaration _ _ declarators => by
    rw [Stmt.actions, Stmt.roots, List.flatMap_map, List.filterMap_eq_flatMap_toList]
    rfl
  | .function _ name _ parameters body => by
    simp [Stmt.actions, Stmt.roots, Analysis.Action.roots, List.flatMap_map,
      Stmt.rootsAll_actions body]
  | .assignment .. | .output .. | .throw .. | .expression .. => rfl

theorem Stmt.rootsAll_actions : ∀ body : List Stmt,
    (Stmt.actionsAll body).flatMap Analysis.Action.roots = Stmt.rootsAll body
  | [] => rfl
  | s :: rest => by
    rw [Stmt.actionsAll, Stmt.rootsAll, List.flatMap_append, s.roots_actions,
      Stmt.rootsAll_actions rest]

end

theorem Analysis.reached_throughout (kept : Value.Kept holds) {body : List Stmt}
    (written : ∀ e ∈ Stmt.rootsAll body, e.Throughout holds) (count : Nat) :
    (reached body count).Throughout holds := by
  refine empty_throughout.run kept fun action taken e evaluated => written e ?_
  rw [← Stmt.rootsAll_actions]
  exact List.mem_flatMap.2 ⟨action, List.mem_of_mem_take taken, evaluated⟩

end Scriptlet
