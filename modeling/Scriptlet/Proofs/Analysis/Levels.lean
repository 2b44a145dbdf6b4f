import Scriptlet.Proofs.Analysis.Accepted

/-!
Places inside nested functions. A level is a function with a hole in its body; a list of levels,
innermost first, is a way from a statement out to the program. The state in which a check reaches
the hole follows from the levels, and if the program is accepted, so is everything on the way.
-/

namespace Scriptlet

structure Level where
  span : Span
  name : String
  nameSpan : Span
  parameters : List Parameter
  before : List Stmt
  after : List Stmt

namespace Level

def body (l : Level) (s : Stmt) : List Stmt := l.before ++ s :: l.after

-- The function with the hole filled.
def close (l : Level) (s : Stmt) : Stmt :=
  .function l.span l.name l.nameSpan l.parameters (l.body s)

def closeAll : List Level → Stmt → Stmt
  | [], s => s
  | l :: outer, s => closeAll outer (l.close s)

-- The variables of the body that are declared when the hole is reached.
def declaredBefore (l : Level) : List String :=
  l.parameters.map (·.name) ++ l.before.flatMap Stmt.declared

end Level

namespace Analysis

variable {a : Analysis} {s : Stmt} {inFunction : Bool} {l : Level} {levels : List Level}

-- The state at the start of the body of a function.
def opened (a : Analysis) (name : String) (position : Position) (parameters : List Parameter) :
    Analysis :=
  parameters.foldl (checkParameter name)
    (a.register name (parameters.map (·.name)) position).enter

-- The state at the hole of the innermost level.
def within (a : Analysis) : List Level → Analysis
  | [] => a
  | l :: outer =>
    ((a.within outer).opened l.name l.nameSpan.start l.parameters).checkAll true l.before

theorem check_function {span nameSpan : Span} {name : String} {parameters : List Parameter}
    {body : List Stmt} :
    a.check inFunction (.function span name nameSpan parameters body) =
      ((a.opened name nameSpan.start parameters).checkAll true body).exit := by
  simp only [check, opened]

theorem checkAll_append (before after : List Stmt) :
    a.checkAll inFunction (before ++ after) =
      (a.checkAll inFunction before).checkAll inFunction after := by
  induction before generalizing a with
  | nil => rfl
  | cons s before ih => exact ih

theorem checkAll_middle {before after : List Stmt}
    (accepted : (a.checkAll inFunction (before ++ s :: after)).accepted = true) :
    ((a.checkAll inFunction before).check inFunction s).accepted = true := by
  rw [checkAll_append] at accepted
  exact checkAll_before (s := after) accepted

theorem check_function_accepted {span nameSpan : Span} {name : String}
    {parameters : List Parameter} {body : List Stmt}
    (accepted :
      (a.check inFunction (.function span name nameSpan parameters body)).accepted = true) :
    ((a.opened name nameSpan.start parameters).checkAll true body).accepted = true := by
  rw [check_function] at accepted
  exact accepted

-- Whether a statement in the hole stands in a function.
def inside (inFunction : Bool) : List Level → Bool
  | [] => inFunction
  | _ :: _ => true

-- The rest of a check after the statement in the hole.
def resume (a : Analysis) : List Level → Analysis
  | [] => a
  | l :: outer => (a.checkAll true l.after).exit.resume outer

theorem check_closeAll : a.check inFunction (Level.closeAll levels s) =
    ((a.within levels).check (inside inFunction levels) s).resume levels := by
  induction levels generalizing s with
  | nil => rfl
  | cons l outer ih =>
    rw [Level.closeAll, ih, Level.close, check_function, Level.body, checkAll_append]
    rfl

theorem within_accepted
    (accepted : (a.check inFunction (Level.closeAll levels s)).accepted = true) :
    ((a.within levels).check (inside inFunction levels) s).accepted = true := by
  induction levels generalizing s with
  | nil => exact accepted
  | cons l outer ih => exact checkAll_middle (check_function_accepted (ih accepted))

theorem opened_before {name : String} {position : Position} {parameters : List Parameter}
    (accepted : (a.opened name position parameters).accepted = true) :
    (a.register name (parameters.map (·.name)) position).accepted = true := by
  unfold opened at accepted
  have entered := foldl_before (fun _ _ => checkParameter_before) accepted
  exact entered

theorem opened_stepped (orderly : a.Orderly) {name : String} {position : Position}
    {parameters : List Parameter} (accepted : (a.opened name position parameters).accepted = true) :
    (a.opened name position parameters).Orderly ∧
      (a.opened name position parameters).names =
        (a.names.register [name]).enter.declare (parameters.map (·.name)) ∧
      ¬ a.names.Knows name := by
  obtain ⟨registered, fresh⟩ := register_stepped orderly (opened_before accepted)
  obtain ⟨insideOrderly, names⟩ := enter_orderly registered.orderly
  have declared := parameters_stepped insideOrderly accepted
  refine ⟨declared.orderly, ?_, fresh⟩
  have shown := declared.names
  rw [names, registered.names] at shown
  rw [opened, shown]
  simp [Names.declare, Names.register, Names.enter, Names.frames]

theorem within_orderly (orderly : a.Orderly)
    (accepted : (a.within levels).accepted = true) :
    (a.within levels).Orderly ∧
      (a.within levels).names.frames = levels.map Level.declaredBefore ++ a.names.frames := by
  induction levels with
  | nil => exact ⟨orderly, rfl⟩
  | cons l outer ih =>
    have openedAccepted := checkAll_before (s := l.before) accepted
    obtain ⟨outerOrderly, frames⟩ := ih (register_before (opened_before openedAccepted))
    obtain ⟨openedOrderly, names, -⟩ := opened_stepped outerOrderly openedAccepted
    have reached := checkAll_stepped openedOrderly accepted
    refine ⟨reached.orderly, ?_⟩
    have shown := reached.names
    rw [names] at shown
    rw [within, shown, List.map_cons, List.cons_append, ← frames]
    simp [Names.frames, Names.declare, Names.register, Names.enter, Level.declaredBefore]

end Analysis

-- A function body that was accepted after its parameters had been declared.
def BodyAccepted (parameters : List Parameter) (body : List Stmt) : Prop :=
  ∃ a : Analysis, a.Orderly ∧ a.names.inner = parameters.map (·.name) ∧
    (a.checkAll true body).accepted = true

-- Something holds of the function of each level.
def Level.Every (holds : List Parameter → List Stmt → Prop) : List Level → Stmt → Prop
  | [], _ => True
  | l :: outer, s => holds l.parameters (l.body s) ∧ Level.Every holds outer (l.close s)

theorem bodyAccepted_of_function {a : Analysis} {inFunction : Bool} {span nameSpan : Span}
    {name : String} {parameters : List Parameter} {body : List Stmt} (orderly : a.Orderly)
    (accepted :
      (a.check inFunction (.function span name nameSpan parameters body)).accepted = true) :
    BodyAccepted parameters body := by
  have bodyAccepted := Analysis.check_function_accepted accepted
  obtain ⟨openedOrderly, names, -⟩ :=
    Analysis.opened_stepped orderly (Analysis.checkAll_before (s := body) bodyAccepted)
  refine ⟨_, openedOrderly, ?_, bodyAccepted⟩
  rw [names]
  rfl

theorem bodyAccepted_of_place {a : Analysis} {levels : List Level} {inFunction : Bool}
    {span nameSpan : Span} {name : String} {parameters : List Parameter} {body : List Stmt}
    (orderly : a.Orderly)
    (accepted : (a.check inFunction
      (Level.closeAll levels (.function span name nameSpan parameters body))).accepted = true) :
    BodyAccepted parameters body := by
  have reached := Analysis.within_accepted accepted
  exact bodyAccepted_of_function (Analysis.within_orderly orderly (Analysis.check_before reached)).1
    reached

namespace Analysis

variable {a : Analysis} {s : Stmt} {x : String}

theorem check_variable (orderly : a.Orderly) {inFunction : Bool}
    (accepted : (a.check inFunction s).accepted = true) (member : x ∈ s.assigned ++ s.declared) :
    x ∉ a.names.functions := by
  rcases List.mem_append.1 member with assigned | declared
  · cases s with
    | assignment span name nameSpan op value =>
      cases List.mem_singleton.1 assigned
      exact orderly.apart _ (checkAssignment_stepped orderly accepted).2
    | _ => cases assigned
  · have stepped := check_stepped orderly accepted
    intro defined
    refine stepped.orderly.apart x ?_ ?_
    · rw [stepped.names]
      exact Names.sees_declare.2 (.inr declared)
    · rw [stepped.names]
      exact List.mem_append_left _ defined

theorem check_defined (orderly : a.Orderly) {inFunction : Bool}
    (accepted : (a.check inFunction s).accepted = true) (member : x ∈ s.defined) :
    ¬ a.names.Knows x ∧ x ∈ (a.check inFunction s).names.functions := by
  cases s with
  | function span name nameSpan parameters body =>
    cases List.mem_singleton.1 member
    have opened := checkAll_before (s := body) (check_function_accepted accepted)
    refine ⟨(register_stepped orderly (opened_before opened)).2, ?_⟩
    rw [(check_stepped orderly accepted).names]
    exact List.mem_append_right _ (by simp [Stmt.functions])
  | _ => cases member

theorem checkAll_variable (orderly : a.Orderly) {inFunction : Bool} {body : List Stmt}
    (accepted : (a.checkAll inFunction body).accepted = true)
    (member : x ∈ body.flatMap fun s => s.assigned ++ s.declared) : x ∉ a.names.functions := by
  obtain ⟨s, listed, used⟩ := List.mem_flatMap.1 member
  obtain ⟨before, after, rfl⟩ := List.append_of_mem listed
  have reached := checkAll_middle accepted
  have early := checkAll_stepped orderly (check_before reached)
  intro defined
  refine check_variable early.orderly reached used ?_
  rw [early.names]
  exact List.mem_append_left _ defined

end Analysis

namespace BodyAccepted

variable {parameters : List Parameter} {body before after : List Stmt} {s : Stmt} {x : String}

theorem defined_fresh (accepted : BodyAccepted parameters (before ++ s :: after))
    (member : x ∈ s.defined) :
    x ∉ parameters.map (·.name) ∧ x ∉ before.flatMap Stmt.ownNames := by
  obtain ⟨a, orderly, inner, accepted⟩ := accepted
  have reached := Analysis.checkAll_middle accepted
  have early := Analysis.checkAll_stepped orderly (Analysis.check_before reached)
  have fresh := (Analysis.check_defined early.orderly reached member).1
  refine ⟨fun listed => fresh (early.knows ?_), fun listed => fresh (early.known x listed)⟩
  exact .inl ⟨a.names.inner, by simp [Names.frames], inner ▸ listed⟩

theorem defined_apart (accepted : BodyAccepted parameters body)
    (member : x ∈ body.flatMap Stmt.defined) :
    x ∉ body.flatMap fun s => s.assigned ++ s.declared := by
  obtain ⟨s, listed, here⟩ := List.mem_flatMap.1 member
  obtain ⟨before, after, rfl⟩ := List.append_of_mem listed
  intro used
  rw [List.flatMap_append, List.flatMap_cons] at used
  rcases List.mem_append.1 used with earlier | used
  · obtain ⟨t, listed, used⟩ := List.mem_flatMap.1 earlier
    refine (accepted.defined_fresh here).2 (List.mem_flatMap.2 ⟨t, listed, ?_⟩)
    exact (List.mem_append.1 used).elim Stmt.assigned_subset Stmt.declared_subset
  · rcases List.mem_append.1 used with same | later
    · cases s with
      | function => cases same
      | _ => cases here
    · obtain ⟨a, orderly, -, accepted⟩ := accepted
      have reached := Analysis.checkAll_middle accepted
      have early := Analysis.checkAll_stepped orderly (Analysis.check_before reached)
      have after := Analysis.check_stepped early.orderly reached
      rw [Analysis.checkAll_append] at accepted
      exact Analysis.checkAll_variable after.orderly accepted later
        (Analysis.check_defined early.orderly reached here).2

end BodyAccepted

end Scriptlet
