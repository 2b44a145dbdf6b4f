import Scriptlet.Proofs.Scope.Frames

/-!
Symbol tables and stacks of maps. A table keeps the scopes that are closed and moves a number
around; a stack drops its top map. Under every sequence of operations the two give the same
answers. The links from a scope to its parent lead from the current scope through the open ones
to the first, so a search along them ends, and a scope off this chain never changes again.
-/

namespace Scriptlet

inductive Operation where
  | enter
  | exit
  | declare (name : String) (fixed : Bool) (position : Position)
  | lookup (name : String)
  | lookupGlobal (name : String)
  | assign (name : String) (value : Value)
  | declareFunction (name : String) (parameters : List String) (position : Position)
  | lookupFunction (name : String)

inductive Answer where
  | nothing
  | scope (id : ScopeId)
  | accepted (yes : Bool)
  | variable (symbol : Option Symbol)
  | function (symbol : Option FunctionSymbol)

namespace SymbolTable

-- The table after one operation, and what the operation returns. An assignment returns the
-- variable that it is about to change.
def perform (t : SymbolTable) : Operation → SymbolTable × Answer
  | .enter => (t.enter, .scope t.enter.current)
  | .exit => (t.exit, .nothing)
  | .declare name fixed position =>
    ((t.declare? name fixed position).getD t, .accepted (t.declare? name fixed position).isSome)
  | .lookup name => (t, .variable (t.lookup? name))
  | .lookupGlobal name => (t, .variable (t.global? name))
  | .assign name value =>
    (t.assign name value, .variable ((t.home? name).bind fun id => t.variableIn? id name))
  | .declareFunction name parameters position =>
    ((t.declareFunction? name parameters position).getD t,
      .accepted (t.declareFunction? name parameters position).isSome)
  | .lookupFunction name => (t, .function (t.function? name))

def after (t : SymbolTable) (operations : List Operation) : SymbolTable :=
  operations.foldl (fun t operation => (t.perform operation).1) t

-- What each operation returns, and whether the table is at its outermost scope then.
def answers (t : SymbolTable) : List Operation → List (Answer × Bool)
  | [] => []
  | operation :: rest =>
    ((t.perform operation).2, (t.perform operation).1.isGlobal) ::
      (t.perform operation).1.answers rest

end SymbolTable

abbrev VariableMap := String → Option Symbol

namespace VariableMap

def put (map : VariableMap) (name : String) (symbol : Symbol) : VariableMap :=
  fun other => if other = name then some symbol else map other

-- Gives the variable of that name a new value in the first map that has one.
def assignFirst (name : String) (value : Value) : List VariableMap → List VariableMap
  | [] => []
  | map :: rest =>
    match map name with
    | some symbol => map.put name { symbol with value := value } :: rest
    | none => map :: assignFirst name value rest

end VariableMap

-- The maps of the open scopes, never none, and the map of the functions. `opened` counts the maps
-- that there have been.
structure MapStack where
  top : VariableMap
  below : List VariableMap
  functions : String → Option FunctionSymbol
  opened : Nat

namespace MapStack

def new : MapStack := ⟨fun _ => none, [], fun _ => none, 1⟩

def maps (s : MapStack) : List VariableMap := s.top :: s.below

def isGlobal (s : MapStack) : Bool := s.below.isEmpty

def lookup? (s : MapStack) (name : String) : Option Symbol := s.maps.findSome? fun map => map name

def global? (s : MapStack) (name : String) : Option Symbol := (s.below.getLast?.getD s.top) name

def enter (s : MapStack) : MapStack :=
  { s with top := fun _ => none, below := s.maps, opened := s.opened + 1 }

def exit (s : MapStack) : MapStack :=
  match s.below with
  | [] => s
  | map :: rest => { s with top := map, below := rest }

def declare (s : MapStack) (name : String) (fixed : Bool) (position : Position) : MapStack :=
  if (s.top name).isSome then s
  else { s with top := s.top.put name ⟨name, fixed, position, .empty⟩ }

def assign (s : MapStack) (name : String) (value : Value) : MapStack :=
  match s.top name with
  | some symbol => { s with top := s.top.put name { symbol with value := value } }
  | none => { s with below := VariableMap.assignFirst name value s.below }

-- The first function of a name keeps it.
def declareFunction (s : MapStack) (name : String) (parameters : List String)
    (position : Position) : MapStack :=
  if (s.functions name).isSome then s else
    { s with functions := fun other =>
        if other = name then some ⟨name, parameters, position⟩ else s.functions other }

def perform (s : MapStack) : Operation → MapStack × Answer
  | .enter => (s.enter, .scope s.opened)
  | .exit => (s.exit, .nothing)
  | .declare name fixed position =>
    (s.declare name fixed position, .accepted (s.top name).isNone)
  | .lookup name => (s, .variable (s.lookup? name))
  | .lookupGlobal name => (s, .variable (s.global? name))
  | .assign name value => (s.assign name value, .variable (s.lookup? name))
  | .declareFunction name parameters position =>
    (s.declareFunction name parameters position, .accepted (s.functions name).isNone)
  | .lookupFunction name => (s, .function (s.functions name))

theorem ext_maps {s s' : MapStack} (maps : s.maps = s'.maps)
    (functions : s.functions = s'.functions) (opened : s.opened = s'.opened) : s = s' := by
  cases s
  cases s'
  cases maps
  cases functions
  cases opened
  rfl

theorem assign_maps (s : MapStack) (name : String) (value : Value) :
    (s.assign name value).maps = VariableMap.assignFirst name value s.maps := by
  unfold assign maps
  rw [VariableMap.assignFirst]
  cases s.top name <;> rfl

def answers (s : MapStack) : List Operation → List (Answer × Bool)
  | [] => []
  | operation :: rest =>
    ((s.perform operation).2, (s.perform operation).1.isGlobal) ::
      (s.perform operation).1.answers rest

end MapStack

-- The variables of a scope as a map.
def VariableMap.ofFrame (frame : List Symbol) : VariableMap :=
  fun name => frame.find? (·.name = name)

namespace VariableMap

variable {frame : List Symbol} {symbol : Symbol} {name : String} {value : Value}

theorem ofFrame_append (fresh : frame.find? (·.name = symbol.name) = none) :
    ofFrame (frame ++ [symbol]) = (ofFrame frame).put symbol.name symbol := by
  funext other
  rw [ofFrame, List.find?_append, put, List.find?_singleton]
  by_cases here : other = symbol.name
  · simp [here, fresh]
  · have elsewhere : symbol.name ≠ other := Ne.symm here
    simp [here, elsewhere, ofFrame]

theorem ofFrame_rebind (found : frame.find? (·.name = name) = some symbol) :
    ofFrame (frame.map (Symbol.rebind name value)) =
      (ofFrame frame).put name { symbol with value := value } := by
  have called : symbol.name = name := by simpa using List.find?_some found
  funext other
  rw [ofFrame, SymbolTable.find?_rebind, put]
  by_cases here : other = name
  · rw [here, found, if_pos rfl, Option.map_some, Symbol.rebind, if_pos called]
  · rw [if_neg here, ofFrame]
    cases seen : frame.find? (·.name = other) with
    | none => rfl
    | some symbol =>
      have apart : symbol.name = other := by simpa using List.find?_some seen
      rw [Option.map_some, Symbol.rebind, if_neg (apart ▸ here)]

theorem assignFirst_frames (frames : List (List Symbol)) :
    (rebindFirst name value frames).map ofFrame = assignFirst name value (frames.map ofFrame) := by
  induction frames with
  | nil => rfl
  | cons frame rest ih =>
    rw [rebindFirst, List.map_cons, assignFirst]
    cases found : frame.find? (·.name = name) with
    | none =>
      have absent : ofFrame frame name = none := found
      simp [absent, ih]
    | some symbol =>
      have present : ofFrame frame name = some symbol := found
      simp [present, ofFrame_rebind found]

end VariableMap

namespace SymbolTable

variable {t t' : SymbolTable} {name : String} {value : Value}

def toStack (t : SymbolTable) : MapStack :=
  ⟨VariableMap.ofFrame (bindingsIn t.scopes t.current),
    (t.enclosing.map (bindingsIn t.scopes)).map VariableMap.ofFrame, t.function?, t.scopes.length⟩

theorem toStack_maps : t.toStack.maps = t.frames.map VariableMap.ofFrame := rfl

theorem lookup?_toStack : t.toStack.lookup? name = t.lookup? name := by
  rw [MapStack.lookup?, toStack_maps, lookup?_eq, List.findSome?_map]
  rfl

theorem global?_toStack (sound : t.Sound) : t.toStack.global? name = t.global? name := by
  have rooted := sound.rooted
  rw [global?, variableIn?_eq, MapStack.global?]
  simp only [toStack, List.getLast?_map, Option.map_map]
  rw [path, List.getLast?_cons] at rooted
  cases last : t.enclosing.getLast? with
  | none =>
    have outermost : t.current = globalScope := by simpa [last] using rooted
    simp [outermost, VariableMap.ofFrame]
  | some outer =>
    have outermost : outer = globalScope := by simpa [last] using rooted
    simp [outermost, VariableMap.ofFrame]

theorem isGlobal_toStack (sound : t.Sound) : t.toStack.isGlobal = t.isGlobal := by
  have rooted := sound.rooted
  have distinct := sound.distinct
  rw [path, List.getLast?_cons] at rooted
  rw [path, List.nodup_cons] at distinct
  cases enclosing : t.enclosing with
  | nil =>
    have outermost : t.current = globalScope := by simpa [enclosing] using rooted
    simp [MapStack.isGlobal, toStack, isGlobal, enclosing, outermost]
  | cons outer rest =>
    have nested : t.current ≠ globalScope := by
      intro outermost
      apply distinct.1
      rw [enclosing, outermost]
      apply List.mem_of_getLast?
      simpa [enclosing, List.getLast?_cons] using rooted
    simp [MapStack.isGlobal, toStack, isGlobal, enclosing, nested]

theorem variableIn?_home? :
    ((t.home? name).bind fun id => t.variableIn? id name) = t.lookup? name := by
  rw [home?, lookup?]
  induction t.path with
  | nil => rfl
  | cons id rest ih =>
    rw [List.find?_cons, List.findSome?_cons]
    cases here : t.variableIn? id name with
    | none => simpa using ih
    | some symbol => simp [here]

theorem enter_toStack (sound : t.Sound) : t.enter.toStack = t.toStack.enter := by
  apply MapStack.ext_maps
  · rw [toStack_maps, enter_frames sound]
    rfl
  · rfl
  · simp [toStack, enter, MapStack.enter]

theorem exit_toStack : t.exit.toStack = t.toStack.exit := by
  unfold exit MapStack.exit
  cases enclosing : t.enclosing with
  | nil => simp [toStack, enclosing]
  | cons outer rest =>
    simp only [toStack, enclosing, List.map_cons]
    rfl

theorem assign_length : (t.assign name value).scopes.length = t.scopes.length := by
  unfold assign
  split
  · rfl
  · exact List.length_modify ..

theorem assign_toStack (sound : t.Sound) :
    (t.assign name value).toStack = t.toStack.assign name value := by
  apply MapStack.ext_maps
  · rw [MapStack.assign_maps, toStack_maps, toStack_maps, assign_frames sound]
    exact VariableMap.assignFirst_frames t.frames
  · have same : (t.assign name value).function? = t.function? := by
      funext other
      rw [function?, assign_functions, function?]
    rw [toStack, same]
    unfold MapStack.assign
    split <;> rfl
  · rw [toStack, assign_length]
    unfold MapStack.assign
    split <;> rfl

theorem declare?_toStack (sound : t.Sound) (name : String) (fixed : Bool) (position : Position) :
    ((t.declare? name fixed position).getD t).toStack = t.toStack.declare name fixed position ∧
      (t.declare? name fixed position).isSome = (t.toStack.top name).isNone := by
  have top : t.toStack.top name = (bindingsIn t.scopes t.current).find? (·.name = name) := rfl
  rw [MapStack.declare, top]
  cases declared : t.declare? name fixed position with
  | none =>
    have present := declare?_eq_none.1 declared
    rw [present, if_pos rfl]
    exact ⟨rfl, by simpa using present⟩
  | some t' =>
    have fresh := declare?_new declared
    have frames := declare?_frames sound declared
    have opened : t'.scopes.length = t.scopes.length := by
      unfold declare? at declared
      split at declared
      · cases declared
      · cases declared
        exact List.length_modify ..
    rw [fresh]
    refine ⟨?_, rfl⟩
    apply MapStack.ext_maps
    · rw [Option.getD_some, toStack_maps, frames.1, List.map_cons,
        VariableMap.ofFrame_append fresh]
      rfl
    · funext other
      simp only [Option.getD_some, toStack, function?, frames.2]
      rfl
    · exact opened

theorem declareFunction?_toStack (name : String) (parameters : List String)
    (position : Position) :
    ((t.declareFunction? name parameters position).getD t).toStack =
        t.toStack.declareFunction name parameters position ∧
      (t.declareFunction? name parameters position).isSome =
        (t.toStack.functions name).isNone := by
  have known : t.toStack.functions name = t.function? name := rfl
  rw [MapStack.declareFunction, known, declareFunction?]
  cases found : t.function? name with
  | some f => exact ⟨rfl, rfl⟩
  | none =>
    refine ⟨?_, rfl⟩
    apply MapStack.ext_maps
    · rfl
    · funext other
      simp only [Option.getD_some, toStack, function?, List.find?_append, List.find?_singleton]
      by_cases here : other = name
      · rw [function?] at found
        simp [here, found]
      · have elsewhere : name ≠ other := Ne.symm here
        simp [here, elsewhere]
    · rfl

theorem perform_toStack (sound : t.Sound) (operation : Operation) :
    t.toStack.perform operation =
      ((t.perform operation).1.toStack, (t.perform operation).2) := by
  cases operation with
  | enter => rw [perform, MapStack.perform, enter_toStack sound]; rfl
  | exit => rw [perform, MapStack.perform, exit_toStack]
  | declare name fixed position =>
    have both := declare?_toStack sound name fixed position
    rw [perform, MapStack.perform, both.1, both.2]
  | lookup name => rw [perform, MapStack.perform, lookup?_toStack]
  | lookupGlobal name => rw [perform, MapStack.perform, global?_toStack sound]
  | assign name value =>
    rw [perform, MapStack.perform, assign_toStack sound, lookup?_toStack, variableIn?_home?]
  | declareFunction name parameters position =>
    have both := t.declareFunction?_toStack name parameters position
    rw [perform, MapStack.perform, both.1, both.2]
  | lookupFunction name => rfl

-- One operation opens a scope, goes back by one, changes the variables of an open scope or changes
-- the functions.
inductive Moves (t : SymbolTable) : SymbolTable → Prop
  | enter : Moves t t.enter
  | exit : Moves t t.exit
  | change {id : ScopeId} {f : Scope → Scope} (opened : id ∈ t.path)
      (linked : ∀ scope, (f scope).parent = scope.parent) :
      Moves t { t with scopes := t.scopes.modify id f }
  | register (functions : List FunctionSymbol) : Moves t { t with functions := functions }

theorem exit_cases (t : SymbolTable) :
    t.exit = t ∨ (t.exit.scopes = t.scopes ∧ t.path = t.current :: t.exit.path) := by
  unfold exit
  split
  · exact .inl rfl
  · rename_i outer rest enclosing
    exact .inr ⟨rfl, by rw [path, enclosing]; rfl⟩

theorem Moves.stay : t.Moves t := .register t.functions

theorem declare?_moves {fixed : Bool} {position : Position} :
    t.Moves ((t.declare? name fixed position).getD t) := by
  unfold declare?
  split
  · exact .stay
  · exact .change List.mem_cons_self fun _ => rfl

theorem assign_moves : t.Moves (t.assign name value) := by
  unfold assign
  split
  · exact .stay
  · rename_i id home
    exact .change (List.mem_of_find?_eq_some home) fun _ => rfl

theorem declareFunction?_moves {parameters : List String} {position : Position} :
    t.Moves ((t.declareFunction? name parameters position).getD t) := by
  unfold declareFunction?
  split
  · exact .stay
  · exact .register _

theorem perform_moves (operation : Operation) : t.Moves (t.perform operation).1 := by
  cases operation with
  | enter => exact .enter
  | exit => exact .exit
  | declare name fixed position => exact declare?_moves
  | lookup name => exact .stay
  | lookupGlobal name => exact .stay
  | assign name value => exact assign_moves
  | declareFunction name parameters position => exact declareFunction?_moves
  | lookupFunction name => exact .stay

theorem Moves.sound (moved : t.Moves t') (sound : t.Sound) : t'.Sound := by
  cases moved with
  | enter => exact enter_sound sound
  | exit => exact exit_sound sound
  | change opened linked =>
    refine ⟨sound.distinct, fun id opened => ?_, sound.rooted⟩
    rw [List.length_modify]
    exact sound.inRange id opened
  | register functions => exact ⟨sound.distinct, sound.inRange, sound.rooted⟩

-- The parent of each scope.
def parents (t : SymbolTable) : List (Option ScopeId) := t.scopes.map (·.parent)

-- The scopes on the way from one scope along the parents, up to one without a parent.
inductive Chain (parents : List (Option ScopeId)) : ScopeId → List ScopeId → Prop
  | root {id : ScopeId} (alone : parents[id]? = some none) : Chain parents id [id]
  | link {id outer : ScopeId} {rest : List ScopeId} (inside : parents[id]? = some (some outer))
      (onward : Chain parents outer rest) : Chain parents id (id :: rest)

-- The search for the scope of a name: here, or else in the parent, if there is one.
inductive Resolves (t : SymbolTable) (name : String) : ScopeId → Option ScopeId → Prop
  | here {id : ScopeId} (has : (t.variableIn? id name).isSome = true) : Resolves t name id (some id)
  | outward {id outer : ScopeId} {home : Option ScopeId}
      (lacks : (t.variableIn? id name).isSome = false) (inside : t.parents[id]? = some (some outer))
      (onward : Resolves t name outer home) : Resolves t name id home
  | nowhere {id : ScopeId} (lacks : (t.variableIn? id name).isSome = false)
      (alone : t.parents[id]? = some none) : Resolves t name id none

-- The scopes form a tree with the first as its root, where parents have smaller numbers, and the
-- open scopes are the way from the current one to the root.
structure Linked (t : SymbolTable) : Prop where
  root : t.parents[globalScope]? = some none
  inner : ∀ id, globalScope < id → id < t.scopes.length →
    ∃ outer, t.parents[id]? = some (some outer) ∧ outer < id
  current : t.current < t.scopes.length
  chain : Chain t.parents t.current t.path

theorem empty_linked : empty.Linked := by
  refine ⟨rfl, ?_, by decide, .root rfl⟩
  intro id positive bound
  exact absurd positive (Nat.not_lt.2 (Nat.le_of_lt_succ bound))

theorem Chain.append {parents more : List (Option ScopeId)} {id : ScopeId} {path : List ScopeId}
    (chain : Chain parents id path) : Chain (parents ++ more) id path := by
  have kept : ∀ {id : ScopeId} {parent : Option ScopeId}, parents[id]? = some parent →
      (parents ++ more)[id]? = some parent := by
    intro id parent found
    rw [List.getElem?_append_left (List.getElem?_eq_some_iff.1 found).1, found]
  induction chain with
  | root alone => exact .root (kept alone)
  | link inside onward ih => exact .link (kept inside) ih

-- The search along the parents ends, with what the search through the open scopes finds.
theorem Chain.resolves {id : ScopeId} {path : List ScopeId} (chain : Chain t.parents id path) :
    t.Resolves name id (path.find? fun id => (t.variableIn? id name).isSome) := by
  induction chain with
  | @root id alone =>
    cases has : (t.variableIn? id name).isSome with
    | true => simpa [has] using Resolves.here has
    | false => simpa [has] using Resolves.nowhere has alone
  | @link id outer rest inside onward ih =>
    cases has : (t.variableIn? id name).isSome with
    | true => simpa [has] using Resolves.here has
    | false => simpa [has] using Resolves.outward has inside ih

theorem modify_parents {id : ScopeId} {f : Scope → Scope}
    (linked : ∀ scope, (f scope).parent = scope.parent) :
    (t.scopes.modify id f).map (·.parent) = t.parents := by
  apply List.ext_getElem?
  intro other
  rw [parents, List.getElem?_map, List.getElem?_map, List.getElem?_modify]
  cases t.scopes[other]? with
  | none => rfl
  | some scope => by_cases here : id = other <;> simp [here, linked]

theorem Chain.bound {parents : List (Option ScopeId)} {id : ScopeId} {path : List ScopeId}
    (chain : Chain parents id path) : id < parents.length := by
  cases chain with
  | root alone => exact (List.getElem?_eq_some_iff.1 alone).1
  | link inside onward => exact (List.getElem?_eq_some_iff.1 inside).1

theorem Chain.head {parents : List (Option ScopeId)} {id : ScopeId} {path : List ScopeId}
    (chain : Chain parents id path) : path.head? = some id := by
  cases chain <;> rfl

theorem parents_length : t.parents.length = t.scopes.length := List.length_map ..

theorem enter_linked (linked : t.Linked) : t.enter.Linked := by
  have longer : t.enter.parents = t.parents ++ [some t.current] := by simp [parents, enter]
  have old : ∀ {id : ScopeId}, id < t.scopes.length → t.enter.parents[id]? = t.parents[id]? := by
    intro id older
    rw [longer, List.getElem?_append_left (by rwa [parents_length])]
  have new : t.enter.parents[t.scopes.length]? = some (some t.current) := by
    rw [longer, ← parents_length, List.getElem?_concat_length]
  have grown : t.enter.scopes.length = t.scopes.length + 1 := by simp [enter]
  refine ⟨?_, ?_, ?_, ?_⟩
  · have first : globalScope < t.scopes.length := Nat.zero_lt_of_lt linked.current
    rw [old first, linked.root]
  · intro id inner bound
    rw [grown] at bound
    rcases Nat.lt_or_eq_of_le (Nat.le_of_lt_succ bound) with older | rfl
    · rw [old older]
      exact linked.inner id inner older
    · exact ⟨t.current, new, linked.current⟩
  · rw [grown]
    exact Nat.lt_succ_self _
  · apply Chain.link new
    rw [longer]
    exact linked.chain.append

theorem exit_linked (linked : t.Linked) : t.exit.Linked := by
  rcases t.exit_cases with outermost | ⟨same, opened⟩
  · rwa [outermost]
  · have chain := linked.chain
    have links : t.exit.parents = t.parents := by rw [parents, same, parents]
    rw [opened] at chain
    cases chain with
    | link inside onward =>
      have here := onward.head
      rw [path, List.head?_cons, Option.some.injEq] at here
      rw [← here, ← links] at onward
      refine ⟨?_, ?_, ?_, onward⟩
      · rw [links, linked.root]
      · rw [links, same]
        exact linked.inner
      · rw [← parents_length]
        exact onward.bound

theorem Linked.exit_current (linked : t.Linked) :
    t.exit.current = t.parents[t.current]?.join.getD t.current := by
  have chain := linked.chain
  unfold exit
  split
  · rename_i outermost
    rw [path, outermost] at chain
    cases chain with
    | root alone => rw [alone]; rfl
    | link inside onward => cases onward
  · rename_i outer rest enclosing
    rw [path, enclosing] at chain
    cases chain with
    | link inside onward =>
      have here := onward.head
      rw [List.head?_cons, Option.some.injEq] at here
      rw [inside, ← here]
      rfl

theorem Moves.linked (moved : t.Moves t') (linked : t.Linked) : t'.Linked := by
  cases moved with
  | enter => exact enter_linked linked
  | exit => exact exit_linked linked
  | @change id f opened kept =>
    have same : SymbolTable.parents { t with scopes := t.scopes.modify id f } = t.parents :=
      modify_parents kept
    refine ⟨?_, ?_, ?_, ?_⟩
    · rw [same, linked.root]
    · rw [same, List.length_modify]
      exact linked.inner
    · rw [List.length_modify]
      exact linked.current
    · rw [same]
      exact linked.chain
  | register functions => exact ⟨linked.root, linked.inner, linked.current, linked.chain⟩

theorem Moves.closed (moved : t.Moves t') {id : ScopeId} (known : id < t.scopes.length)
    (closed : id ∉ t.path) :
    t'.scopes[id]? = t.scopes[id]? ∧ id < t'.scopes.length ∧ id ∉ t'.path := by
  cases moved with
  | enter =>
    have grown : t.enter.scopes = t.scopes ++ [⟨some t.current, []⟩] := rfl
    have opened : t.enter.path = t.scopes.length :: t.path := rfl
    refine ⟨?_, ?_, ?_⟩
    · rw [grown, List.getElem?_append_left known]
    · rw [grown, List.length_append]
      exact Nat.lt_add_right _ known
    · rw [opened, List.mem_cons]
      rintro (rfl | member)
      · exact Nat.lt_irrefl _ known
      · exact closed member
  | exit =>
    rcases t.exit_cases with outermost | ⟨same, opened⟩
    · rw [outermost]
      exact ⟨rfl, known, closed⟩
    · rw [same]
      refine ⟨rfl, known, ?_⟩
      intro member
      apply closed
      rw [opened]
      exact List.mem_cons_of_mem _ member
  | @change changed f opened kept =>
    refine ⟨?_, ?_, closed⟩
    · have other : changed ≠ id := by
        rintro rfl
        exact closed opened
      exact List.getElem?_modify_ne _ _ other
    · rwa [List.length_modify]
  | register functions => exact ⟨rfl, known, closed⟩

theorem after_closed {id : ScopeId} (known : id < t.scopes.length) (closed : id ∉ t.path)
    (later : List Operation) : (t.after later).scopes[id]? = t.scopes[id]? := by
  induction later generalizing t with
  | nil => rfl
  | cons operation rest ih =>
    obtain ⟨same, known, closed⟩ := (t.perform_moves operation).closed known closed
    rw [← same]
    exact ih known closed

theorem after_linked (linked : t.Linked) (operations : List Operation) :
    (t.after operations).Linked := by
  induction operations generalizing t with
  | nil => exact linked
  | cons operation rest ih => exact ih ((t.perform_moves operation).linked linked)

theorem answers_toStack (sound : t.Sound) (operations : List Operation) :
    t.answers operations = t.toStack.answers operations := by
  induction operations generalizing t with
  | nil => rfl
  | cons operation rest ih =>
    have next := (t.perform_moves operation).sound sound
    rw [answers, MapStack.answers, perform_toStack sound, isGlobal_toStack next, ih next]

theorem empty_toStack : empty.toStack = .new := by
  apply MapStack.ext_maps
  · rfl
  · rfl
  · rfl

-- After every sequence of operations the table has answered as the stack of maps has, its scopes
-- are linked, going back and searching follow the links, and what is off the chain of open scopes
-- stays.
theorem refines_stack (operations : List Operation) :
    empty.answers operations = MapStack.new.answers operations ∧
    (empty.after operations).Linked ∧
    (empty.after operations).exit.current =
      (empty.after operations).parents[(empty.after operations).current]?.join.getD
        (empty.after operations).current ∧
    (∀ name, (empty.after operations).Resolves name (empty.after operations).current
      ((empty.after operations).home? name)) ∧
    (∀ id < (empty.after operations).scopes.length, id ∉ (empty.after operations).path →
      ∀ later, (empty.after (operations ++ later)).scopes[id]? =
        (empty.after operations).scopes[id]?) := by
  have linked := after_linked empty_linked operations
  refine ⟨?_, linked, linked.exit_current, fun name => linked.chain.resolves, ?_⟩
  · rw [answers_toStack empty_sound, empty_toStack]
  · intro id known closed later
    have onward : empty.after (operations ++ later) = (empty.after operations).after later :=
      List.foldl_append
    rw [onward]
    exact after_closed known closed later

end SymbolTable

end Scriptlet
