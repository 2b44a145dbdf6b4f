import Scriptlet.Proofs.Analysis.Levels
import Scriptlet.Proofs.Scope.Stack

/-!
A check as a run of single actions. A statement is a list of them, a function with its body is one
list from its name to its end, and the states of a check are what the prefixes of these lists lead
to, inside function bodies too. What an action can do to the table of symbols is said once, and
what holds in all states follows from it.
-/

namespace Scriptlet

namespace Analysis

-- How many function bodies are open.
def functionDepth (a : Analysis) : Nat := a.symbols.enclosing.length

def inFunction (a : Analysis) : Bool := decide (0 < a.functionDepth)

inductive Action where
  | declarator (fixed : Bool) (d : Declarator)
  | assignment (name : String) (position : Position) (op : AssignOp) (value : Expr)
  | register (name : String) (parameters : List String) (position : Position)
  | enter
  | parameter (function : String) (p : Parameter)
  | exit
  | throw (position : Position) (value : Expr)
  | evaluate (value : Expr)

-- Whether the action changes which scopes are open.
def Action.moves : Action → Bool
  | enter | exit => true
  | _ => false

def perform (a : Analysis) : Action → Analysis
  | .declarator fixed d => checkDeclarator fixed a d
  | .assignment name position op value => a.checkAssignment name position op value
  | .register name parameters position => a.register name parameters position
  | .enter => a.enter
  | .parameter function p => checkParameter function a p
  | .exit => a.exit
  | .throw position value =>
    if a.inFunction then a.evaluate value
    else (a.evaluate value).report (.misplacedThrow position)
  | .evaluate value => a.evaluate value

def run (a : Analysis) (actions : List Action) : Analysis := actions.foldl perform a

end Analysis

open Analysis

mutual

def Stmt.actions : Stmt → List Action
  | .declaration _ fixed declarators => declarators.map (.declarator fixed)
  | .assignment _ name nameSpan op value => [.assignment name nameSpan.start op value]
  | .function _ name nameSpan parameters body =>
    .register name (parameters.map (·.name)) nameSpan.start :: .enter ::
      (parameters.map (.parameter name) ++ (Stmt.actionsAll body ++ [.exit]))
  | .output _ value | .expression _ value => [.evaluate value]
  | .throw span value => [.throw span.start value]

def Stmt.actionsAll : List Stmt → List Action
  | [] => []
  | s :: rest => s.actions ++ Stmt.actionsAll rest

end

namespace Analysis

-- The state of the check of a program after so many actions.
def reached (program : List Stmt) (count : Nat) : Analysis :=
  empty.run ((Stmt.actionsAll program).take count)

-- An action opens or closes a scope, declares a new variable with its value, gives a new value to
-- the variable that an assignment finds, registers a new function, or leaves the table alone.
inductive Effect (t : SymbolTable) : Action → SymbolTable → Prop
  | none {action} : Effect t action t
  | enter : Effect t .enter t.enter
  | exit : Effect t .exit t.exit
  | declare {action name fixed position value t'} (free : t.function? name = none)
      (declared : t.declare? name fixed position = some t') :
      Effect t action (t'.assign name value)
  | assign {name position op e symbol value} (found : t.lookup? name = some symbol)
      (changeable : symbol.fixed = false) :
      Effect t (.assignment name position op e) (t.assign name value)
  | register {action name parameters position t'} (unseen : t.lookup? name = none)
      (registered : t.declareFunction? name parameters position = some t') : Effect t action t'

variable {a : Analysis} {action : Action}

theorem declare_effect {name : String} {fixed : Bool} {position : Position}
    {repeated : Diagnostic} {value : Value} :
    Effect a.symbols action (a.declare name fixed position repeated value).symbols := by
  unfold declare
  split
  · exact .none
  · rename_i free
    split
    · exact .none
    · rename_i declared
      exact .declare (by simpa using free) declared

theorem checkAssignment_effect {name : String} {position : Position} {op : AssignOp} {e : Expr} :
    Effect a.symbols (.assignment name position op e)
      (a.checkAssignment name position op e).symbols := by
  unfold checkAssignment
  dsimp only
  split
  · exact .none
  · rename_i symbol found
    split
    · exact .none
    · rename_i changeable
      have changeable : symbol.fixed = false := by simpa using changeable
      cases op with
      | assign => exact .assign found changeable
      | compound op => exact .assign found changeable

theorem register_effect {name : String} {parameters : List String} {position : Position} :
    Effect a.symbols action (a.register name parameters position).symbols := by
  unfold register
  split
  · exact .none
  · split
    · exact .none
    · rename_i unseen
      split
      · exact .none
      · rename_i registered
        exact .register (by simpa using unseen) registered

theorem perform_effect (a : Analysis) (action : Action) :
    Effect a.symbols action (a.perform action).symbols := by
  cases action with
  | declarator fixed d =>
    unfold perform checkDeclarator
    dsimp only
    split
    · exact declare_effect
    · exact declare_effect (a := a.evaluate _)
  | assignment name position op value => exact checkAssignment_effect
  | register name parameters position => exact register_effect
  | enter => exact .enter
  | parameter function p => exact declare_effect
  | exit => exact .exit
  | throw position value =>
    rw [perform]
    split <;> exact .none
  | evaluate value => exact .none

-- Whatever every effect keeps holds after every run.
theorem run_symbols {holds : SymbolTable → Prop}
    (kept : ∀ {t action t'}, Effect t action t' → holds t → holds t') (actions : List Action)
    (start : holds a.symbols) : holds (a.run actions).symbols := by
  induction actions generalizing a with
  | nil => exact start
  | cons action rest ih => exact ih (kept (perform_effect a action) start)

namespace Effect

variable {t t' : SymbolTable}

theorem moves (effect : Effect t action t') : ∃ middle, t.Moves middle ∧ middle.Moves t' := by
  cases effect with
  | none => exact ⟨t, .stay, .stay⟩
  | enter => exact ⟨t, .stay, .enter⟩
  | exit => exact ⟨t, .stay, .exit⟩
  | @declare _ name fixed position value middle _ declared =>
    have moved := @SymbolTable.declare?_moves t name fixed position
    rw [declared] at moved
    exact ⟨middle, moved, SymbolTable.assign_moves⟩
  | assign => exact ⟨t, .stay, SymbolTable.assign_moves⟩
  | @register _ name parameters position _ _ registered =>
    have moved := @SymbolTable.declareFunction?_moves t name parameters position
    rw [registered] at moved
    exact ⟨t, .stay, moved⟩

theorem sound (effect : Effect t action t') (sound : t.Sound) : t'.Sound := by
  obtain ⟨middle, first, second⟩ := effect.moves
  exact second.sound (first.sound sound)

theorem linked (effect : Effect t action t') (linked : t.Linked) : t'.Linked := by
  obtain ⟨middle, first, second⟩ := effect.moves
  exact second.linked (first.linked linked)

theorem path (effect : Effect t action t') (stays : action.moves = false) :
    t'.path = t.path := by
  have assigned : ∀ (t : SymbolTable) name value, (t.assign name value).path = t.path := by
    intro t name value
    unfold SymbolTable.assign
    split <;> rfl
  cases effect with
  | none => rfl
  | enter => exact absurd stays (by decide)
  | exit => exact absurd stays (by decide)
  | declare _ declared =>
    rw [assigned]
    unfold SymbolTable.declare? at declared
    split at declared
    · cases declared
    · cases declared
      rfl
  | assign => exact assigned ..
  | register _ registered =>
    unfold SymbolTable.declareFunction? at registered
    split at registered
    · cases registered
    · cases registered
      rfl

end Effect

theorem run_append (first second : List Action) :
    a.run (first ++ second) = (a.run first).run second := List.foldl_append

theorem run_path {actions : List Action} (stay : ∀ action ∈ actions, action.moves = false) :
    (a.run actions).symbols.path = a.symbols.path := by
  induction actions generalizing a with
  | nil => rfl
  | cons action rest ih =>
    rw [List.forall_mem_cons] at stay
    exact (ih stay.2).trans ((perform_effect a action).path stay.1)

theorem exit_path (nested : a.symbols.enclosing ≠ []) :
    a.exit.symbols.path = a.symbols.enclosing := by
  unfold exit SymbolTable.exit
  split
  · rename_i outermost
    exact absurd outermost nested
  · rename_i outer rest opened
    exact opened.symm

theorem inFunction_eq {b : Analysis} (same : b.symbols.path = a.symbols.path) :
    b.inFunction = a.inFunction := by
  have enclosing : b.symbols.enclosing = a.symbols.enclosing := (List.cons.inj same).2
  rw [inFunction, functionDepth, enclosing]
  rfl

theorem run_parameters {function : String} {parameters : List Parameter} :
    a.run (parameters.map (.parameter function)) =
      parameters.foldl (checkParameter function) a := by
  rw [run, List.foldl_map]
  rfl

theorem opened_enclosing {name : String} {position : Position} {parameters : List Parameter} :
    (a.opened name position parameters).symbols.enclosing = a.symbols.path := by
  have declared : ∀ action ∈ parameters.map (Action.parameter name), action.moves = false := by
    intro action listed
    obtain ⟨p, -, rfl⟩ := List.mem_map.1 listed
    rfl
  let names := parameters.map (·.name)
  have kept := run_path (a := (a.register name names position).enter) declared
  have same := (perform_effect a (.register name names position)).path rfl
  rw [run_parameters] at kept
  exact (List.cons.inj kept).2.trans same

mutual

theorem check_eq_run : ∀ (s : Stmt) (a : Analysis), a.check a.inFunction s = a.run s.actions ∧
    (a.run s.actions).symbols.path = a.symbols.path
  | .declaration _ fixed declarators, a => by
    refine ⟨?_, run_path ?_⟩
    · rw [check, run, Stmt.actions, List.foldl_map]
      rfl
    · intro action listed
      obtain ⟨d, -, rfl⟩ := List.mem_map.1 listed
      rfl
  | .assignment .., _ => ⟨rfl, run_path (List.forall_mem_singleton.2 rfl)⟩
  | .function span name nameSpan parameters body, a => by
    let inside := a.opened name nameSpan.start parameters
    obtain ⟨same, kept⟩ := checkAll_eq_run body inside
    have opened : a.run (Stmt.function span name nameSpan parameters body).actions =
        (inside.run (Stmt.actionsAll body)).exit := by
      rw [Stmt.actions, run, List.foldl_cons, List.foldl_cons, ← run, run_append, run_append,
        run_parameters]
      rfl
    have around : inside.symbols.enclosing = a.symbols.path := opened_enclosing
    have nested : inside.inFunction = true := by
      simp [inFunction, functionDepth, around, SymbolTable.path]
    have after : (inside.run (Stmt.actionsAll body)).symbols.enclosing = a.symbols.path :=
      (List.cons.inj kept).2.trans around
    refine ⟨?_, ?_⟩
    · rw [opened, ← same, nested, check_function]
    · rw [opened, exit_path (by simp [after, SymbolTable.path]), after]
  | .output .., _ | .expression .., _ => ⟨rfl, rfl⟩
  | .throw .., _ => ⟨rfl, run_path (List.forall_mem_singleton.2 rfl)⟩

theorem checkAll_eq_run : ∀ (body : List Stmt) (a : Analysis),
    a.checkAll a.inFunction body = a.run (Stmt.actionsAll body) ∧
      (a.run (Stmt.actionsAll body)).symbols.path = a.symbols.path
  | [], _ => ⟨rfl, rfl⟩
  | s :: rest, a => by
    obtain ⟨first, path⟩ := check_eq_run s a
    obtain ⟨others, path'⟩ := checkAll_eq_run rest (a.run s.actions)
    rw [checkAll, first, Stmt.actionsAll, run_append, ← others, inFunction_eq path]
    rw [inFunction_eq path] at others
    exact ⟨rfl, by rw [others, path', path]⟩

end

theorem reached_end (program : List Stmt) :
    reached program (Stmt.actionsAll program).length = empty.checkAll false program := by
  rw [reached, List.take_length]
  exact (checkAll_eq_run program empty).1.symm

theorem exit_functionDepth (a : Analysis) : a.exit.functionDepth = a.functionDepth - 1 := by
  unfold functionDepth exit SymbolTable.exit
  split
  · rename_i outermost
    rw [outermost]
    rfl
  · rename_i outer rest opened
    rw [opened]
    rfl

theorem perform_functionDepth (stays : action.moves = false) :
    (a.perform action).functionDepth = a.functionDepth :=
  congrArg List.length (List.cons.inj ((perform_effect a action).path stays)).2

end Analysis

-- An analysis with a counter of its own for the functions around the current statement.
structure Analyzer where
  analysis : Analysis
  functionDepth : Nat

namespace Analyzer

def start : Analyzer := ⟨.empty, 0⟩

def perform (s : Analyzer) : Action → Analyzer
  | .enter => ⟨s.analysis.enter, s.functionDepth + 1⟩
  | .exit => ⟨s.analysis.exit, s.functionDepth - 1⟩
  | .throw position value =>
    let after := s.analysis.evaluate value
    if s.functionDepth = 0 then ⟨after.report (.misplacedThrow position), s.functionDepth⟩
    else ⟨after, s.functionDepth⟩
  | action => ⟨s.analysis.perform action, s.functionDepth⟩

def run (s : Analyzer) (actions : List Action) : Analyzer := actions.foldl perform s

-- The counter of an analysis if it counts the open scopes.
def counted (a : Analysis) : Analyzer := ⟨a, a.functionDepth⟩

theorem counted_perform (a : Analysis) (action : Action) :
    (counted a).perform action = counted (a.perform action) := by
  have stays (moves : action.moves = false) :
      (⟨a.perform action, a.functionDepth⟩ : Analyzer) = counted (a.perform action) := by
    rw [counted, perform_functionDepth moves]
  cases action with
  | enter => rfl
  | exit => exact congrArg (Analyzer.mk a.exit) (exit_functionDepth a).symm
  | throw position value =>
    rw [← stays rfl]
    by_cases outside : a.functionDepth = 0
    · simp [perform, Analysis.perform, counted, inFunction, outside]
    · simp [perform, Analysis.perform, counted, inFunction, outside, Nat.pos_of_ne_zero outside]
  | declarator | assignment | register | parameter | evaluate => exact stays rfl

theorem counted_run (a : Analysis) (actions : List Action) :
    (counted a).run actions = counted (a.run actions) := by
  induction actions generalizing a with
  | nil => rfl
  | cons action rest ih =>
    rw [run, List.foldl_cons, ← run, counted_perform]
    exact ih (a.perform action)

-- In every state of a check the counter is the number of scopes around the current one.
theorem run_reached (program : List Stmt) (count : Nat) :
    start.run ((Stmt.actionsAll program).take count) = counted (reached program count) :=
  counted_run .empty _

theorem run_actionsAll (program : List Stmt) :
    start.run (Stmt.actionsAll program) = ⟨Analysis.empty.checkAll false program, 0⟩ := by
  obtain ⟨same, path⟩ := checkAll_eq_run program .empty
  have depth : (Analysis.empty.run (Stmt.actionsAll program)).functionDepth = 0 :=
    congrArg List.length (List.cons.inj path).2
  calc
    start.run (Stmt.actionsAll program)
      = counted (Analysis.empty.run (Stmt.actionsAll program)) := counted_run .empty _
    _ = ⟨Analysis.empty.checkAll false program, 0⟩ := by rw [counted, depth, ← same]; rfl

end Analyzer

end Scriptlet
