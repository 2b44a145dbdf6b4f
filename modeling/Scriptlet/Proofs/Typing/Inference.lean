import Scriptlet.Proofs.Analysis.Annotation
import Scriptlet.Proofs.Typing.Tags

/-!
Types of a whole program, inferred from the text and from the types of the variables at the start.
Where a check accepts, the types of all values that it has on file are the inferred ones.
-/

namespace Scriptlet

-- The type of an expression, given those of the variables.
def Expr.tag (known : Tags) : Expr → Tag
  | .literal _ written => written.value.tag
  | .identifier _ name => (known.find? name).getD .unknown
  | .call .. => .unknown
  | .list .. => .list
  | .binary _ op left right => .ofBinary op (left.tag known) (right.tag known)
  | .unary _ op operand => .ofUnary op (operand.tag known)
  | .cast _ target operand => .ofCast target (operand.tag known)
  | .grouping _ inner => inner.tag known

def Declarator.tags (known : Tags) (d : Declarator) : Tags :=
  known.declare d.name (d.value.elim .empty (·.tag known))

-- The parameters of a function can be anything.
def Tags.opened (known : Tags) (parameters : List Parameter) : Tags :=
  parameters.foldl (fun known p => known.declare p.name .unknown) known.enter

mutual

-- The types of the variables after a statement. A function counts as run once, where it stands.
def Stmt.tags (known : Tags) : Stmt → Tags
  | .declaration _ _ declarators => declarators.foldl Declarator.tags known
  | .assignment _ name _ .assign value => known.assign name (value.tag known)
  | .assignment _ name _ (.compound op) value =>
    known.assign name
      (.ofBinary (.arithmetic op) ((known.find? name).getD .unknown) (value.tag known))
  | .function _ _ _ parameters body => (Stmt.tagsAll (known.opened parameters) body).exit
  | .output .. | .throw .. | .expression .. => known

def Stmt.tagsAll (known : Tags) : List Stmt → Tags
  | [] => known
  | s :: rest => Stmt.tagsAll (s.tags known) rest

end

def Expr.Typed (final : Analysis) (known : Tags) (e : Expr) : Prop :=
  ∀ n ∈ e.nodes, final.tag? n.id = some (n.tag known)

def Declarator.TypedAll (final : Analysis) (known : Tags) : List Declarator → Prop
  | [] => True
  | d :: rest =>
    (∀ e, d.value = some e → e.Typed final known) ∧ Declarator.TypedAll final (d.tags known) rest

mutual

-- Every expression has its inferred types on file, and so has the target of a compound assignment.
def Stmt.Typed (final : Analysis) (known : Tags) : Stmt → Prop
  | .declaration _ _ declarators => Declarator.TypedAll final known declarators
  | .assignment _ _ _ .assign value => value.Typed final known
  | .assignment _ name _ (.compound _) value =>
    value.Typed final known ∧ final.targetTag? value.id = known.find? name
  | .function _ _ _ parameters body => Stmt.TypedAll final (known.opened parameters) body
  | .output _ value | .throw _ value | .expression _ value => value.Typed final known

def Stmt.TypedAll (final : Analysis) (known : Tags) : List Stmt → Prop
  | [] => True
  | s :: rest => s.Typed final known ∧ Stmt.TypedAll final (s.tags known) rest

end

namespace Expr

variable {t : SymbolTable} {e n : Expr}

theorem part_clean (clean : (e.reduce t).diagnostics = []) :
    ∀ part ∈ e.parts, (part.reduce t).diagnostics = [] := by
  rw [reduce_eq, Reduction.ofParts_clean, List.forall_mem_map] at clean
  exact clean.1

theorem node_clean (clean : (e.reduce t).diagnostics = []) :
    ∀ n ∈ e.nodes, (n.reduce t).diagnostics = [] := by
  induction e using induction_on_parts with
  | whole e ih =>
    intro n inside
    rw [nodes_eq] at inside
    rcases List.mem_append.1 inside with deeper | own
    · obtain ⟨part, below, inside⟩ := List.mem_flatMap.1 deeper
      exact ih part below (part_clean clean part below) n inside
    · cases List.mem_singleton.1 own
      exact clean

theorem settled_of_clean {position : Position} {outcome : Except ValueFailure Value}
    (clean : ValueFailure.diagnostic? position outcome = none) :
    outcome = .ok (.settled outcome) := by
  cases outcome with
  | ok value => rfl
  | error failure => cases clean

theorem valueIn_tag (clean : (e.reduce t).diagnostics = []) :
    (e.valueIn t).tag = e.tag t.tags := by
  induction e using induction_on_parts with
  | whole e ih =>
    have parts : ∀ part ∈ e.parts, (part.valueIn t).tag = part.tag t.tags :=
      fun part below => ih part below (part_clean clean part below)
    have own : e.flaw? t (valueIn t) = none := by
      rw [reduce_eq, Reduction.ofParts_clean] at clean
      exact Option.toList_eq_nil_iff.1 clean.2
    rw [valueIn_eq]
    cases e with
    | literal | call | list => rfl
    | identifier node name =>
      rw [settled, tag, ← SymbolTable.lookup?_tag]
      cases t.lookup? name <;> rfl
    | binary node op left right =>
      rw [settled, tag, Value.applyBinary_tag (settled_of_clean own),
        parts left (by simp [Expr.parts]), parts right (by simp [Expr.parts])]
    | unary node op operand =>
      rw [settled, tag, Value.applyUnary_tag (settled_of_clean own),
        parts operand (by simp [Expr.parts])]
    | cast node target operand =>
      rw [settled, tag, Value.castTo_tag (settled_of_clean own),
        parts operand (by simp [Expr.parts])]
    | grouping node inner => exact parts inner (by simp [Expr.parts])

end Expr

namespace Analysis

variable {a b final : Analysis} {e : Expr} {name : String} {position : Position}

theorem evaluate_typed (accepted : (a.evaluate e).accepted = true) (distinct : e.ids.Nodup)
    (kept : b.values = (a.evaluate e).values) (same : SameFiles final b e.ids) :
    e.Typed final a.symbols.tags := by
  intro n inside
  have clean := Expr.node_clean (evaluate_accepted accepted).2 n inside
  rw [tag?, evaluate_filed distinct kept same n inside, Option.map_some, Expr.valueIn_tag clean]

theorem declare_tags (orderly : a.Orderly) {fixed : Bool} {repeated : Diagnostic} {value : Value}
    (accepted : (a.declare name fixed position repeated value).accepted = true) :
    (a.declare name fixed position repeated value).symbols.tags =
      a.symbols.tags.declare name value.tag := by
  obtain ⟨symbols, -, declared, same⟩ := declare_accepted accepted
  rw [same]
  exact SymbolTable.declare?_tags orderly.sound declared

theorem checkDeclarator_tags (orderly : a.Orderly) {fixed : Bool} {d : Declarator}
    (accepted : (checkDeclarator fixed a d).accepted = true) :
    (checkDeclarator fixed a d).symbols.tags = d.tags a.symbols.tags := by
  unfold checkDeclarator at accepted ⊢
  unfold Declarator.tags
  dsimp only at accepted ⊢
  cases value : d.value with
  | none =>
    simp only [value] at accepted ⊢
    exact declare_tags orderly accepted
  | some e =>
    simp only [value] at accepted ⊢
    have evaluated := declare_before accepted
    have clean := (evaluate_accepted evaluated).2
    rw [declare_tags (evaluate_stepped orderly evaluated).orderly accepted, Option.elim_some,
      ← Expr.valueIn_tag clean]
    rfl

theorem declarators_typed {fixed : Bool} {declarators : List Declarator} (orderly : a.Orderly)
    (accepted : (declarators.foldl (checkDeclarator fixed) a).accepted = true)
    (distinct : (declarators.flatMap Declarator.ids).Nodup)
    (same : SameFiles final (declarators.foldl (checkDeclarator fixed) a)
      (declarators.flatMap Declarator.ids)) :
    Declarator.TypedAll final a.symbols.tags declarators ∧
      (declarators.foldl (checkDeclarator fixed) a).symbols.tags =
        declarators.foldl Declarator.tags a.symbols.tags := by
  induction declarators generalizing a with
  | nil => exact ⟨trivial, rfl⟩
  | cons d rest ih =>
    have each : ∀ a d, Untouched a (checkDeclarator fixed a d) d.ids :=
      fun _ _ => checkDeclarator_untouched
    rw [List.flatMap_cons] at distinct same
    rw [List.nodup_append] at distinct
    have checked : (checkDeclarator fixed a d).accepted = true :=
      foldl_before (fun _ _ => checkDeclarator_before) accepted
    have first := same.before (foldl_untouched each rest)
      fun id listed later => distinct.2.2 id listed id later rfl
    have after := checkDeclarator_tags orderly checked
    obtain ⟨typed, done⟩ := ih (checkDeclarator_stepped orderly checked).orderly accepted
      distinct.2.1 fun id listed => same id (List.mem_append_right _ listed)
    rw [after] at typed done
    refine ⟨⟨fun e value => ?_, typed⟩, done⟩
    have numbers : d.ids = e.ids := by rw [Declarator.ids, value, Option.elim_some]
    rw [numbers] at first distinct
    obtain ⟨kept, grows⟩ := checkDeclarator_some (a := a) value
    exact evaluate_typed (accepted_of_grows grows checked) distinct.1 kept first

theorem checkAssign_typed (orderly : a.Orderly)
    (accepted : (a.checkAssignment name position .assign e).accepted = true)
    (distinct : e.ids.Nodup)
    (same : SameFiles final (a.checkAssignment name position .assign e) e.ids) :
    e.Typed final a.symbols.tags ∧
      (a.checkAssignment name position .assign e).symbols.tags =
        a.symbols.tags.assign name (e.tag a.symbols.tags) := by
  have evaluated := checkAssignment_before accepted
  refine ⟨evaluate_typed evaluated distinct checkAssignment_values same, ?_⟩
  obtain ⟨symbol, -, ⟨-, shape⟩ | ⟨op, combined, different, -⟩⟩ := checkAssignment_accepted accepted
  · rw [shape, ← Expr.valueIn_tag (evaluate_accepted evaluated).2]
    exact SymbolTable.assign_tags orderly.sound
  · cases different

theorem checkCompound_typed (orderly : a.Orderly) {op : Arithmetic}
    (accepted : (a.checkAssignment name position (.compound op) e).accepted = true)
    (distinct : e.ids.Nodup)
    (same : SameFiles final (a.checkAssignment name position (.compound op) e) e.ids) :
    (e.Typed final a.symbols.tags ∧ final.targetTag? e.id = a.symbols.tags.find? name) ∧
      (a.checkAssignment name position (.compound op) e).symbols.tags =
        a.symbols.tags.assign name (.ofBinary (.arithmetic op)
          ((a.symbols.tags.find? name).getD .unknown) (e.tag a.symbols.tags)) := by
  have evaluated := checkAssignment_before accepted
  have typed := evaluate_typed evaluated distinct checkAssignment_values same
  obtain ⟨symbol, found, ⟨different, -⟩ | ⟨_, combined, ⟨⟩, outcome, shape⟩⟩ :=
    checkAssignment_accepted accepted
  · cases different
  have target : a.symbols.tags.find? name = some symbol.value.tag := by
    rw [← SymbolTable.lookup?_tag, found, Option.map_some]
  refine ⟨⟨typed, ?_⟩, ?_⟩
  · have filed := (same e.id e.id_mem_ids).2
    rw [shape] at filed
    rw [targetTag?, ← filed, target]
    simp [assign]
  · rw [shape, target, ← Expr.valueIn_tag (evaluate_accepted evaluated).2, Option.getD_some,
      Expr.valueIn, ← Value.applyBinary_tag outcome]
    exact SymbolTable.assign_tags orderly.sound

theorem register_tags {parameters : List String}
    (accepted : (a.register name parameters position).accepted = true) :
    (a.register name parameters position).symbols.tags = a.symbols.tags := by
  obtain ⟨symbols, -, declared, same⟩ := register_accepted accepted
  funext x
  rw [same, SymbolTable.tags, (SymbolTable.declareFunction?_frames declared).1]
  rfl

theorem parameters_tags {function : String} {parameters : List Parameter} (orderly : a.Orderly)
    (accepted : (parameters.foldl (checkParameter function) a).accepted = true) :
    (parameters.foldl (checkParameter function) a).symbols.tags =
      parameters.foldl (fun known p => known.declare p.name .unknown) a.symbols.tags := by
  induction parameters generalizing a with
  | nil => rfl
  | cons p rest ih =>
    have first : (checkParameter function a p).accepted = true :=
      foldl_before (fun _ _ => checkParameter_before) accepted
    have declared : (checkParameter function a p).symbols.tags =
        a.symbols.tags.declare p.name .unknown := declare_tags orderly first
    have orderly : (checkParameter function a p).Orderly := (declare_stepped orderly first).orderly
    rw [List.foldl_cons, List.foldl_cons, ih orderly accepted, declared]

theorem opened_tags (orderly : a.Orderly) {parameters : List Parameter}
    (accepted : (a.opened name position parameters).accepted = true) :
    (a.opened name position parameters).symbols.tags = a.symbols.tags.opened parameters := by
  have registered := opened_before accepted
  have stepped := (register_stepped orderly registered).1
  have entered := enter_orderly stepped.orderly
  rw [opened, parameters_tags entered.1 accepted, Tags.opened, enter,
    SymbolTable.enter_tags stepped.orderly.sound, register_tags registered]

theorem body_nested (orderly : a.Orderly) {parameters : List Parameter} {body : List Stmt}
    (accepted : ((a.opened name position parameters).checkAll true body).accepted = true) :
    ((a.opened name position parameters).checkAll true body).symbols.enclosing ≠ [] := by
  obtain ⟨inside, names, -⟩ := opened_stepped orderly (checkAll_before (s := body) accepted)
  have after := (checkAll_stepped inside accepted).names
  rw [names] at after
  intro outermost
  have frames := congrArg Names.outer after
  simp [Analysis.names, SymbolTable.names, outermost, Names.declare, Names.register, Names.enter,
    Names.frames] at frames

mutual

theorem check_typed {inFunction : Bool} : ∀ {s : Stmt} {a : Analysis}, a.Orderly →
    (a.check inFunction s).accepted = true → s.ids.Nodup →
    SameFiles final (a.check inFunction s) s.ids →
    s.Typed final a.symbols.tags ∧ (a.check inFunction s).symbols.tags = s.tags a.symbols.tags
  | .declaration .., _, orderly, accepted, distinct, same =>
    declarators_typed orderly accepted distinct same
  | .assignment _ _ _ .assign _, _, orderly, accepted, distinct, same =>
    checkAssign_typed orderly accepted distinct same
  | .assignment _ _ _ (.compound _) _, _, orderly, accepted, distinct, same =>
    checkCompound_typed orderly accepted distinct same
  | .function _ name nameSpan parameters body, a, orderly, accepted, distinct, same => by
    rw [check_function] at accepted same ⊢
    have started := checkAll_before (s := body) accepted
    have inside := (opened_stepped orderly started).1
    obtain ⟨typed, after⟩ := checkAll_typed inside accepted distinct same
    rw [opened_tags orderly started] at typed after
    refine ⟨typed, ?_⟩
    rw [exit, SymbolTable.exit_tags (body_nested orderly accepted), after]
    rfl
  | .throw .., a, _, accepted, distinct, same => by
    have evaluated := accepted_of_grows checkThrow_kept.2 accepted
    refine ⟨evaluate_typed evaluated distinct checkThrow_kept.1 same, ?_⟩
    rw [check]
    split <;> rfl
  | .output .., _, _, accepted, distinct, same =>
    ⟨evaluate_typed accepted distinct rfl same, rfl⟩
  | .expression .., _, _, accepted, distinct, same =>
    ⟨evaluate_typed accepted distinct rfl same, rfl⟩

theorem checkAll_typed {inFunction : Bool} : ∀ {body : List Stmt} {a : Analysis}, a.Orderly →
    (a.checkAll inFunction body).accepted = true → (Stmt.idsAll body).Nodup →
    SameFiles final (a.checkAll inFunction body) (Stmt.idsAll body) →
    Stmt.TypedAll final a.symbols.tags body ∧
      (a.checkAll inFunction body).symbols.tags = Stmt.tagsAll a.symbols.tags body
  | [], _, _, _, _, _ => ⟨trivial, rfl⟩
  | s :: rest, a, orderly, accepted, distinct, same => by
    rw [Stmt.idsAll, List.nodup_append] at distinct
    have checked := checkAll_before (s := rest) accepted
    have first := same.before checkAll_untouched
      fun id listed later => distinct.2.2 id listed id later rfl
    obtain ⟨typed, after⟩ := check_typed orderly checked distinct.1 first
    obtain ⟨typedRest, done⟩ := checkAll_typed (check_stepped orderly checked).orderly accepted
      distinct.2.1 fun id listed => same id (List.mem_append_right _ listed)
    rw [after] at typedRest done
    exact ⟨⟨typed, typedRest⟩, done⟩

end

end Analysis

end Scriptlet
