import Scriptlet.Proofs.Analysis.Levels
import Scriptlet.Proofs.Target.Scoping
import Scriptlet.Proofs.Target.Spelling

/-!
What lowering does with names. The names in a lowered statement are those of the statement, as
they are spelled, and helpers; the definition for a function lists exactly the names of the
functions in its body and the names that it assigns to without binding them.
-/

namespace Scriptlet

open Target

variable {a : Analysis} {enclosing : List (List String)} {x n : String}

-- A name that stands for one of these, or a helper.
def Spelled (names : List String) (n : String) : Prop := n ∈ names.map spell ∨ n ∈ helperNames

theorem Spelled.mono {names names' : List String} (more : ∀ x ∈ names, x ∈ names')
    (spelled : Spelled names n) : Spelled names' n := by
  rcases spelled with member | helper
  · obtain ⟨x, listed, rfl⟩ := List.mem_map.1 member
    exact .inl (List.mem_map_of_mem (more x listed))
  · exact .inr helper

-- A property that stays with an expression, whatever lowering puts around it.
structure Target.Kept (holds : Target.Expr → Prop) : Prop where
  zero : holds (.integer 0)
  empty : holds (.string "empty")
  call {f : String} {e : Target.Expr} (helper : f ∈ helperNames) (inside : holds e) :
    holds (.call f [e])
  shown {e : Target.Expr} (inside : holds e) : holds (shownText e)
  binary {op : Target.Operator} {l r : Target.Expr} (left : holds l) (right : holds r) :
    holds (.binary op l r)
  falseAfter {e : Target.Expr} {es : List Target.Expr} (all : ∀ f ∈ e :: es, holds f) :
    holds (.falseAfter (e :: es))
  yesNo {e : Target.Expr} (inside : holds e) : holds (.yesNo e)

namespace Target.Kept

variable {holds : Target.Expr → Prop} {e l r : Target.Expr} (kept : Kept holds)
include kept

theorem textOf (tag : Tag) (inside : holds e) : holds (Target.textOf e tag) := by
  cases tag with
  | text => exact inside
  | state => exact kept.yesNo inside
  | empty => exact kept.empty
  | integer | point => exact kept.call (by decide) inside
  | list | unknown => exact kept.shown inside

theorem numericOperand (tag : Option Tag) (inside : holds e) :
    holds (Target.numericOperand e tag) := by
  unfold Target.numericOperand
  split
  · exact kept.zero
  · exact inside

theorem condition (tag : Option Tag) (inside : holds e) : holds (Target.condition e tag) := by
  unfold Target.condition
  split
  · exact kept.falseAfter (List.forall_mem_singleton.2 inside)
  · exact inside

theorem textOperand (tag : Option Tag) (inside : holds e) : holds (Target.textOperand e tag) := by
  unfold Target.textOperand
  split
  · exact kept.textOf _ inside
  · exact inside

theorem cast (target : CastTarget) (tag : Option Tag) (inside : holds e) :
    holds (Target.cast target tag e) := by
  unfold Target.cast
  split
  · exact inside
  · exact inside
  · exact kept.textOf _ inside
  · exact kept.textOf _ inside
  · exact kept.call (by cases target <;> decide) inside

theorem operation (op : BinaryOp) (whole left right : Option Tag) (first : holds l)
    (second : holds r) : holds (Target.binary op whole left right l r) := by
  unfold Target.binary
  split
  · exact kept.binary (kept.call (by decide) (kept.condition _ first))
      (kept.call (by decide) (kept.condition _ second))
  · exact kept.binary (kept.call (by decide) (kept.condition _ first))
      (kept.call (by decide) (kept.condition _ second))
  · split
    · exact kept.falseAfter (List.forall_mem_cons.2 ⟨first, List.forall_mem_singleton.2 second⟩)
    · exact kept.binary first second
  · split
    · exact kept.binary (kept.textOperand _ first) (kept.textOperand _ second)
    · exact kept.binary (kept.numericOperand _ first) (kept.numericOperand _ second)

end Target.Kept

-- All names in the expression are spelled so.
def Within (names : List String) (e : Target.Expr) : Prop := ∀ n ∈ e.names, Spelled names n

namespace Within

variable {names : List String} {e : Target.Expr}

theorem mono {names' : List String} (more : ∀ x ∈ names, x ∈ names') (inside : Within names e) :
    Within names' e := fun n member => (inside n member).mono more

theorem kept (names : List String) : Kept (Within names) where
  zero n member := nomatch member
  empty n member := nomatch member
  call helper inside n member := by
    rcases List.mem_cons.1 member with rfl | member
    · exact .inr helper
    · exact inside n (by simpa [Target.Expr.namesAll] using member)
  shown inside n member := by
    rcases List.mem_cons.1 member with rfl | member
    · exact .inr (by decide)
    · exact inside n (by simpa [Target.Expr.namesAll, Target.Expr.names] using member)
  binary left right n member := by
    rcases List.mem_append.1 member with member | member
    · exact left n member
    · exact right n member
  falseAfter {e es} all n member := by
    rw [Target.Expr.names] at member
    obtain ⟨f, listed, occurs⟩ := Target.Expr.mem_namesAll.1 member
    exact all f listed n occurs
  yesNo inside n member := inside n member

end Within

mutual

theorem Expr.lower_within : ∀ e : Expr, Within e.names (e.lower a)
  | .literal _ value => by
    intro n member
    cases value <;> cases member
  | .identifier _ name => fun n member => .inl member
  | .call _ callee _ arguments => by
    intro n member
    rcases List.mem_cons.1 member with rfl | member
    · exact .inl (List.mem_map_of_mem (by simp [Expr.names]))
    · exact (Expr.lowerAll_within arguments n member).mono fun x listed => by
        simp [Expr.names, listed]
  | .list _ items => Expr.lowerAll_within items
  | .binary node op left right =>
    (Within.kept _).operation op _ _ _
      ((left.lower_within).mono fun x listed => List.mem_append_left _ listed)
      ((right.lower_within).mono fun x listed => List.mem_append_right _ listed)
  | .unary _ .not operand => (Within.kept _).condition _ operand.lower_within
  | .unary _ .negate operand => operand.lower_within
  | .cast _ target operand => (Within.kept _).cast target _ operand.lower_within
  | .grouping _ inner => inner.lower_within

theorem Expr.lowerAll_within : ∀ es : List Expr,
    ∀ n ∈ Target.Expr.namesAll (Expr.lowerAll a es), Spelled (Expr.namesAll es) n
  | [], _, member => nomatch member
  | e :: es, n, member => by
    rcases List.mem_append.1 member with member | member
    · exact (e.lower_within n member).mono fun x listed => List.mem_append_left _ listed
    · exact (Expr.lowerAll_within es n member).mono fun x listed => List.mem_append_right _ listed

end

theorem compound_form (name : String) (op : Arithmetic) (target operand : Option Tag)
    (value : Target.Expr) :
    ∃ e, (compound name op target operand value = .assign name e ∨
        compound name op target operand value = .augment name op e) ∧
      ∀ holds, Kept holds → holds (.name name) → holds value → holds e := by
  unfold compound
  dsimp only
  split
  · exact ⟨_, .inr rfl, fun _ kept _ inside => kept.textOf _ inside⟩
  · exact ⟨_, .inl rfl, fun _ kept read inside => kept.binary (kept.textOf _ read) inside⟩
  · split
    · exact ⟨_, .inl rfl, fun _ kept _ inside =>
        kept.binary kept.zero (kept.numericOperand _ inside)⟩
    · exact ⟨_, .inl rfl, fun _ kept read inside =>
        kept.binary read (kept.numericOperand _ inside)⟩
    · exact ⟨_, .inl rfl, fun _ kept read inside =>
        kept.binary read (kept.numericOperand _ inside)⟩
    · exact ⟨_, .inr rfl, fun _ kept _ inside => kept.numericOperand _ inside⟩

-- The line for an assignment: it writes the name, with or without reading it.
def Target.Stmt.Writes (line : Target.Stmt) (name : String) (value : Target.Expr) : Prop :=
  line = .assign name value ∨ ∃ op, line = .augment name op value

theorem Target.Stmt.Writes.names {line : Target.Stmt} {value : Target.Expr}
    (writes : line.Writes n value) :
    line.ownNames = n :: value.names ∧ line.bound = [n] ∧ line.listed = [] := by
  rcases writes with rfl | ⟨op, rfl⟩ <;> exact ⟨rfl, rfl, rfl⟩

theorem Stmt.lower_assignment (a : Analysis) (enclosing : List (List String)) (span : Span)
    (name : String) (nameSpan : Span) (op : AssignOp) (value : Expr) :
    ∃ line e, (Stmt.assignment span name nameSpan op value).lower a enclosing = [line] ∧
      line.Writes (spell name) e ∧
      ∀ holds, Kept holds → holds (.name (spell name)) → holds (value.lower a) → holds e := by
  cases op with
  | assign => exact ⟨_, _, rfl, .inl rfl, fun _ _ _ inside => inside⟩
  | compound op =>
    obtain ⟨e, form, covers⟩ := compound_form (spell name) op (a.targetTag? value.id)
      (a.tag? value.id) (value.lower a)
    exact ⟨_, e, rfl, form.imp id fun same => ⟨op, same⟩, covers⟩

theorem Within.assigned (name : String) (value : Expr) :
    Within (name :: value.names) (.name (spell name)) ∧
      Within (name :: value.names) (value.lower a) := by
  refine ⟨fun n member => ?_, (value.lower_within).mono fun x named => List.mem_cons_of_mem _ named⟩
  cases List.mem_singleton.1 member
  exact .inl (List.mem_map_of_mem (by simp))

theorem Stmt.lower_ownNames (s : Stmt) :
    ∀ line ∈ s.lower a enclosing, ∀ n ∈ line.ownNames, Spelled s.ownNames n := by
  intro line member n occurs
  cases s with
  | declaration span fixed declarators =>
    obtain ⟨d, listed, rfl⟩ := List.mem_map.1 member
    have covered : ∀ x ∈ d.names, x ∈ declarators.flatMap Declarator.names :=
      fun x named => List.mem_flatMap.2 ⟨d, listed, named⟩
    refine Spelled.mono covered ?_
    rcases List.mem_cons.1 occurs with rfl | occurs
    · exact .inl (List.mem_map_of_mem (by simp [Declarator.names]))
    · cases value : d.value with
      | none =>
        rw [value] at occurs
        cases occurs
      | some e =>
        rw [value] at occurs
        refine (e.lower_within n occurs).mono fun x named => ?_
        simp [Declarator.names, value, named]
  | assignment span name nameSpan op value =>
    obtain ⟨written, e, lowered, writes, covers⟩ :=
      lower_assignment a enclosing span name nameSpan op value
    obtain ⟨read, inside⟩ := @Within.assigned a name value
    rw [lowered] at member
    rw [List.mem_singleton.1 member, writes.names.1] at occurs
    rcases List.mem_cons.1 occurs with rfl | occurs
    · exact .inl (List.mem_map_of_mem (by simp [Stmt.ownNames]))
    · exact covers _ (Within.kept _) read inside n occurs
  | function span name nameSpan parameters body =>
    have same : n = spell name := by
      simp only [Stmt.lower] at member
      split at member
      · cases List.mem_singleton.1 member
        exact List.mem_singleton.1 occurs
      · rcases List.mem_cons.1 member with rfl | member
        · exact List.mem_singleton.1 occurs
        · cases List.mem_singleton.1 member
          exact List.mem_singleton.1 occurs
    exact .inl (same ▸ List.mem_map_of_mem (by simp [Stmt.ownNames]))
  | output span value =>
    cases List.mem_singleton.1 member
    rcases List.mem_cons.1 occurs with rfl | occurs
    · exact .inr (by decide)
    · exact value.lower_within n (by simpa [Target.Expr.namesAll] using occurs)
  | throw span value =>
    cases List.mem_singleton.1 member
    exact value.lower_within n occurs
  | expression span value =>
    cases List.mem_singleton.1 member
    exact value.lower_within n occurs

theorem Stmt.lower_bound (s : Stmt) : (s.lower a enclosing).flatMap Target.Stmt.bound =
    (s.declared ++ s.assigned ++ s.defined).map spell := by
  cases s with
  | declaration span fixed declarators =>
    induction declarators with
    | nil => rfl
    | cons d rest ih => simpa [Stmt.lower, Target.declarator, Target.Stmt.bound, Stmt.declared,
        Stmt.assigned, Stmt.defined] using ih
  | assignment span name nameSpan op value =>
    obtain ⟨line, e, lowered, writes, -⟩ := lower_assignment a enclosing span name nameSpan op value
    rw [lowered]
    simp [writes.names.2.1, Stmt.declared, Stmt.assigned, Stmt.defined]
  | function span name nameSpan parameters body =>
    simp only [Stmt.lower]
    split <;> rfl
  | output | throw | expression => rfl

theorem Stmt.lower_plain {s : Stmt} (plain : s.defined = []) :
    ∀ line ∈ s.lower a enclosing, line.listed = [] := by
  intro line member
  cases s with
  | declaration span fixed declarators =>
    obtain ⟨d, listed, rfl⟩ := List.mem_map.1 member
    rfl
  | assignment span name nameSpan op value =>
    obtain ⟨written, e, lowered, writes, -⟩ :=
      lower_assignment a enclosing span name nameSpan op value
    rw [lowered] at member
    rw [List.mem_singleton.1 member, writes.names.2.2]
  | function => cases plain
  | output | throw | expression => cases List.mem_singleton.1 member; rfl

-- The definition that a function becomes.
def Target.definition (a : Analysis) (enclosing : List (List String)) (name : String)
    (parameters : List Parameter) (body : List Scriptlet.Stmt) : Def :=
  let locals := localNames parameters body
  ⟨spell name, parameters.map fun p => spell p.name,
    bodyHeader enclosing locals body ++ Scriptlet.Stmt.lowerAll a (locals :: enclosing) body⟩

def Target.Def.statement (d : Def) : Target.Stmt := .function d.name d.parameters d.body

theorem Def.statement_inj {d e : Def} (same : d.statement = e.statement) : d = e := by
  cases d
  cases e
  cases same
  rfl

theorem Stmt.lower_function {span nameSpan : Span} {name : String} {parameters : List Parameter}
    {body : List Stmt} :
    (Stmt.function span name nameSpan parameters body).lower a enclosing =
      (if enclosing.isEmpty then [] else [.globals [spell name]]) ++
        [(definition a enclosing name parameters body).statement] := by
  simp only [Stmt.lower]
  split <;> rfl

theorem Stmt.lowerAll_eq (body : List Stmt) :
    Stmt.lowerAll a enclosing body = body.flatMap (Stmt.lower a enclosing) := by
  induction body with
  | nil => rfl
  | cons s body ih => rw [Stmt.lowerAll, ih, List.flatMap_cons]

theorem Stmt.lower_scopeLines (s : Stmt) (nested : enclosing ≠ []) :
    (s.lower a enclosing).flatMap Target.Stmt.globalNames = s.defined.map spell ∧
      (s.lower a enclosing).flatMap Target.Stmt.nonlocalNames = [] := by
  by_cases plain : s.defined = []
  · have silent := @Stmt.lower_plain a enclosing s plain
    simp only [plain, List.map_nil, List.flatMap_eq_nil_iff]
    refine ⟨fun line member => ?_, fun line member => ?_⟩
    · exact (List.append_eq_nil_iff.1 (silent line member)).1
    · exact (List.append_eq_nil_iff.1 (silent line member)).2
  · cases s with
    | function span name nameSpan parameters body =>
      rw [Stmt.lower_function]
      simp [nested, Def.statement, Target.Stmt.globalNames, Target.Stmt.nonlocalNames, Stmt.defined]
    | _ => exact absurd rfl plain

theorem Stmt.lower_scopeLine (s : Stmt) (nested : enclosing ≠ []) {pre post : List Target.Stmt}
    {line : Target.Stmt} (split : s.lower a enclosing = pre ++ line :: post)
    (lists : line.listed ≠ []) :
    ∃ g, s.defined = [g] ∧ pre = [] ∧ line.listed = [spell g] := by
  by_cases plain : s.defined = []
  · exact absurd (Stmt.lower_plain plain line (by rw [split]; simp)) lists
  · cases s with
    | function span name nameSpan parameters body =>
      rw [Stmt.lower_function, if_neg (by simpa using nested)] at split
      match pre with
      | [] =>
        obtain ⟨rfl, -⟩ := List.cons.inj split
        exact ⟨name, rfl, rfl, rfl⟩
      | [_] =>
        obtain ⟨-, later⟩ := List.cons.inj split
        obtain ⟨rfl, -⟩ := List.cons.inj later
        exact absurd rfl lists
      | _ :: _ :: pre => simp at split
    | _ => exact absurd rfl plain

-- Where a scope line stands in a lowered body, a function follows, and everything before the line
-- comes from the statements before that function.
theorem Stmt.lowerAll_scopeLine (nested : enclosing ≠ []) {body : List Stmt}
    {pre post : List Target.Stmt} {line : Target.Stmt}
    (split : Stmt.lowerAll a enclosing body = pre ++ line :: post) (lists : line.listed ≠ []) :
    ∃ before s after g, body = before ++ s :: after ∧ s.defined = [g] ∧
      pre = Stmt.lowerAll a enclosing before ∧ line.listed = [spell g] := by
  induction body generalizing pre with
  | nil => simp [Stmt.lowerAll] at split
  | cons s body ih =>
    rw [Stmt.lowerAll] at split
    rcases List.append_eq_append_iff.1 split with ⟨middle, same, later⟩ | ⟨middle, same, later⟩
    · obtain ⟨before, t, after, g, rfl, defined, rfl, line⟩ := ih later
      exact ⟨s :: before, t, after, g, rfl, defined, by rw [same, Stmt.lowerAll], line⟩
    · cases middle with
      | nil =>
        have alone : Stmt.lowerAll a enclosing body = [] ++ line :: post := later.symm
        obtain ⟨before, t, after, g, rfl, defined, early, line⟩ := ih alone
        refine ⟨s :: before, t, after, g, rfl, defined, ?_, line⟩
        rw [Stmt.lowerAll, ← early, same]
        simp
      | cons first middle =>
        obtain ⟨rfl, -⟩ := List.cons.inj later
        obtain ⟨g, defined, pre, listed⟩ := s.lower_scopeLine nested same lists
        exact ⟨[], s, body, g, rfl, defined, pre, listed⟩

theorem localNames_eq (parameters : List Parameter) (body : List Stmt) :
    localNames parameters body = parameters.map (·.name) ++ body.flatMap Stmt.declared := by
  unfold localNames
  congr 2

theorem mem_outerNames {locals : List String} {body : List Stmt} :
    x ∈ outerNames locals body ↔ x ∈ body.flatMap Stmt.assigned ∧ x ∉ locals := by
  simp only [outerNames, List.mem_eraseDups, List.mem_filter, List.mem_filterMap, List.mem_flatMap]
  refine and_congr (exists_congr fun s => and_congr_right fun _ => ?_) (by simp)
  cases s with
  | assignment span name nameSpan op value => simp [Stmt.assigned, eq_comm]
  | _ => simp [Stmt.assigned]

-- The names that a header lists, by the line they stand in.
def Target.enclosedNames (enclosing : List (List String)) (locals : List String)
    (body : List Scriptlet.Stmt) : List String :=
  (outerNames locals body).filter (bindsLocally enclosing)

def Target.moduleNames (enclosing : List (List String)) (locals : List String)
    (body : List Scriptlet.Stmt) : List String :=
  (outerNames locals body).filter fun x => !bindsLocally enclosing x

theorem bodyHeader_eq {locals : List String} {body : List Stmt} :
    bodyHeader enclosing locals body =
      outerDeclaration .globals (moduleNames enclosing locals body) ++
        outerDeclaration .nonlocals (enclosedNames enclosing locals body) ++
        if body.isEmpty then [.pass] else [] := by
  unfold bodyHeader moduleNames enclosedNames
  rw [List.partition_eq_filter_filter]
  rfl

theorem eq_of_mem_outerDeclaration {form : List String → Target.Stmt} {names : List String}
    {line : Target.Stmt} (member : line ∈ outerDeclaration form names) :
    line = form (names.map spell) := by
  unfold outerDeclaration at member
  split at member
  · cases member
  · exact List.mem_singleton.1 member

theorem eq_pass_of_mem {line : Target.Stmt} {body : List Stmt}
    (member : line ∈ if body.isEmpty then [Target.Stmt.pass] else []) : line = .pass := by
  split at member
  · exact List.mem_singleton.1 member
  · cases member

theorem bodyHeader_ownNames {locals : List String} {body : List Stmt} {line : Target.Stmt}
    {n : String} (member : line ∈ bodyHeader enclosing locals body)
    (occurs : n ∈ line.ownNames) : ∃ x ∈ outerNames locals body, n = spell x := by
  rw [bodyHeader_eq] at member
  simp only [List.mem_append] at member
  rcases member with (member | member) | member
  · cases eq_of_mem_outerDeclaration member
    obtain ⟨x, listed, rfl⟩ := List.mem_map.1 occurs
    exact ⟨x, (List.mem_filter.1 listed).1, rfl⟩
  · cases eq_of_mem_outerDeclaration member
    obtain ⟨x, listed, rfl⟩ := List.mem_map.1 occurs
    exact ⟨x, (List.mem_filter.1 listed).1, rfl⟩
  · cases eq_pass_of_mem member
    cases occurs

theorem outerDeclaration_flatMap {form : List String → Target.Stmt}
    {view : Target.Stmt → List String} (read : ∀ names, view (form names) = names)
    (names : List String) : (outerDeclaration form names).flatMap view = names.map spell := by
  unfold outerDeclaration
  cases names with
  | nil => rfl
  | cons name names => simp [read]

theorem outerDeclaration_silent {form : List String → Target.Stmt}
    {view : Target.Stmt → List String} (silent : ∀ names, view (form names) = [])
    (names : List String) : (outerDeclaration form names).flatMap view = [] := by
  unfold outerDeclaration
  cases names with
  | nil => rfl
  | cons name names => simp [silent]

theorem pass_silent {view : Target.Stmt → List String} (silent : view .pass = [])
    (body : List Stmt) :
    (if body.isEmpty then [Target.Stmt.pass] else []).flatMap view = [] := by
  split <;> simp [silent]

section Definition

variable {name : String} {parameters : List Parameter} {body : List Stmt}

theorem definition_globals : (definition a enclosing name parameters body).globals =
    (moduleNames enclosing (localNames parameters body) body).map spell ++
      (body.flatMap Stmt.defined).map spell := by
  have lowered : (Stmt.lowerAll a (localNames parameters body :: enclosing) body).flatMap
      Target.Stmt.globalNames = (body.flatMap Stmt.defined).map spell := by
    rw [Stmt.lowerAll_eq, List.flatMap_assoc, List.map_flatMap]
    exact congrArg (body.flatMap ·) (funext fun s => (s.lower_scopeLines (by simp)).1)
  simp only [Def.globals, definition, bodyHeader_eq, List.flatMap_append, lowered]
  rw [outerDeclaration_flatMap (fun _ => rfl), outerDeclaration_silent (fun _ => rfl),
    pass_silent rfl]
  simp

theorem definition_nonlocals : (definition a enclosing name parameters body).nonlocals =
    (enclosedNames enclosing (localNames parameters body) body).map spell := by
  have lowered : (Stmt.lowerAll a (localNames parameters body :: enclosing) body).flatMap
      Target.Stmt.nonlocalNames = [] := by
    rw [Stmt.lowerAll_eq, List.flatMap_assoc, List.flatMap_eq_nil_iff]
    exact fun s _ => (s.lower_scopeLines (by simp)).2
  simp only [Def.nonlocals, definition, bodyHeader_eq, List.flatMap_append, lowered]
  rw [outerDeclaration_silent (fun _ => rfl), outerDeclaration_flatMap (fun _ => rfl),
    pass_silent rfl]
  simp

theorem definition_bound : (definition a enclosing name parameters body).body.flatMap
    Target.Stmt.bound =
      body.flatMap fun s => (s.declared ++ s.assigned ++ s.defined).map spell := by
  simp only [definition, bodyHeader_eq, List.flatMap_append]
  rw [outerDeclaration_silent (fun _ => rfl), outerDeclaration_silent (fun _ => rfl),
    pass_silent rfl, Stmt.lowerAll_eq, List.flatMap_assoc]
  simp [Stmt.lower_bound]

end Definition

end Scriptlet
