import Scriptlet.Proofs.Analysis.Growth
import Scriptlet.Proofs.Scoping.Reflection

/-!
The check decides the scoping rules exactly. While the mentions so far are allowed, the table of
symbols reflects them, and a mention that is not allowed leaves a complaint that is never taken
back. Values do not come into it, so neither do the complaints about values.
-/

namespace Scriptlet

-- Whether a complaint is about names or about the place of a `throw`, and not about a value.
def DiagnosticKind.isScoping : DiagnosticKind → Bool
  | .duplicateDeclaration | .undeclaredReference | .immutableReassignment | .undefinedFunction
  | .arityMismatch | .misplacedThrow => true
  | .typeMismatch | .unsupportedOperator | .evaluationFailure | .castFailure => false

def Analysis.NoScopingFlaw (a : Analysis) : Prop := ∀ d ∈ a.diagnostics, d.kind.isScoping = false

namespace Analysis

variable {a b c : Analysis} {before mentions mentions' : List Mention} {place place' : Place}
  {name : String} {position : Position} {e : Expr}

theorem noScopingFlaw_of_grows (grows : a.diagnostics <+: b.diagnostics)
    (clean : b.NoScopingFlaw) : a.NoScopingFlaw :=
  fun d listed => clean d (grows.subset listed)

theorem not_noScopingFlaw_report {d : Diagnostic} (scoping : d.kind.isScoping = true) :
    ¬ (a.report d).NoScopingFlaw := by
  intro clean
  have none := clean d (List.mem_append_right _ (List.mem_singleton.2 rfl))
  rw [scoping] at none
  cases none

-- A part of a check that judges these mentions: it complains about scopes if and only if one of
-- them is not allowed, and otherwise its table reflects them too.
structure Judges (a b : Analysis) (before mentions : List Mention) (place : Place) : Prop where
  clean : b.NoScopingFlaw ↔ a.NoScopingFlaw ∧ AllowedAfter before mentions
  reflects : AllowedAfter before mentions → Reflects b.symbols (before ++ mentions) place

namespace Judges

theorem nothing (reflects : Reflects a.symbols before place) : Judges a a before [] place :=
  ⟨by simp [AllowedAfter], fun _ => by rwa [List.append_nil]⟩

-- The second part matters only if the first found nothing wrong, as complaints stay.
theorem trans (first : Judges a b before mentions place) (grows : b.diagnostics <+: c.diagnostics)
    (second : Reflects b.symbols (before ++ mentions) place →
      Judges b c (before ++ mentions) mentions' place') :
    Judges a c before (mentions ++ mentions') place' := by
  refine ⟨?_, fun allowed => ?_⟩
  · rw [allowedAfter_append]
    constructor
    · intro clean
      obtain ⟨start, allowed⟩ := first.clean.1 (noScopingFlaw_of_grows grows clean)
      exact ⟨start, allowed, ((second (first.reflects allowed)).clean.1 clean).2⟩
    · rintro ⟨start, allowed, later⟩
      exact (second (first.reflects allowed)).clean.2 ⟨first.clean.2 ⟨start, allowed⟩, later⟩
  · obtain ⟨allowed, later⟩ := allowedAfter_append.1 allowed
    have reflects := (second (first.reflects allowed)).reflects later
    rwa [List.append_assoc] at reflects

-- What follows may change the place, as long as it complains about nothing.
theorem move (first : Judges a b before mentions place) (silent : c.diagnostics = b.diagnostics)
    (reflects : Reflects b.symbols (before ++ mentions) place →
      Reflects c.symbols (before ++ mentions) place') : Judges a c before mentions place' := by
  refine ⟨?_, fun allowed => reflects (first.reflects allowed)⟩
  rw [NoScopingFlaw, silent]
  exact first.clean

theorem refused {m : Mention} {d : Diagnostic} (scoping : d.kind.isScoping = true)
    (forbidden : ¬ m.Allowed before) : Judges a (a.report d) before [m] place := by
  have none : ¬ AllowedAfter before [m] := fun allowed =>
    forbidden (allowedAfter_singleton.1 allowed)
  exact ⟨iff_of_false (not_noScopingFlaw_report scoping) fun both => none both.2,
    fun allowed => absurd allowed none⟩

theorem granted {m : Mention} (silent : b.diagnostics = a.diagnostics)
    (allowed : m.Allowed before) (reflects : Reflects b.symbols (before ++ [m]) place) :
    Judges a b before [m] place := by
  refine ⟨?_, fun _ => reflects⟩
  rw [allowedAfter_singleton, NoScopingFlaw, silent]
  exact ⟨fun clean => ⟨clean, allowed⟩, And.left⟩

end Judges

theorem failure_not_scoping {outcome : Except ValueFailure Value} {d : Diagnostic}
    (failed : ValueFailure.diagnostic? position outcome = some d) : d.kind.isScoping = false := by
  cases outcome with
  | ok value => cases failed
  | error failure =>
    cases failed
    cases failure <;> rfl

theorem callFlaw?_scoping {t : SymbolTable} {count : Nat} {d : Diagnostic}
    (flawed : t.callFlaw? name count position = some d) : d.kind.isScoping = true := by
  unfold SymbolTable.callFlaw? at flawed
  split at flawed
  · cases flawed
    rfl
  · split at flawed
    · cases flawed
    · cases flawed
      rfl

theorem flaw?_scoping {t : SymbolTable} (reflects : Reflects t before place) {known : Expr → Value}
    {n : Expr} : (∀ d, n.flaw? t known = some d → d.kind.isScoping = false) ↔
      ∀ use, n.use? = some use → Mention.Allowed before ⟨place, use⟩ := by
  cases n with
  | identifier node name =>
    have allowed : Mention.Allowed before ⟨place, .reads name⟩ ↔ (t.lookup? name).isSome = true :=
      reflects.lookup?_isSome.symm
    simp only [Expr.flaw?, Expr.use?, Option.some.injEq, forall_eq', allowed]
    cases (t.lookup? name).isSome <;> simp [Diagnostic.undeclaredVariable, DiagnosticKind.isScoping]
  | call node callee span arguments =>
    have allowed : Mention.Allowed before ⟨place, .calls callee arguments.length⟩ ↔
        t.callFlaw? callee arguments.length span.start = none :=
      reflects.callFlaw?_eq_none.symm
    simp only [Expr.flaw?, Expr.use?, Option.some.injEq, forall_eq', allowed]
    cases flaw : t.callFlaw? callee arguments.length span.start with
    | none => simp
    | some d => simp [callFlaw?_scoping flaw]
  | binary | unary | cast =>
    simp only [Expr.use?, reduceCtorEq, false_implies, implies_true, iff_true]
    exact fun d failed => failure_not_scoping failed
  | literal | list | grouping => simp [Expr.flaw?, Expr.use?]

theorem evaluate_judges (reflects : Reflects a.symbols before place) :
    Judges a (a.evaluate e) before (e.mentions place) place := by
  refine ⟨?_, reflects.quiet Expr.mentions_quiet⟩
  have found : (a.evaluate e).diagnostics = a.diagnostics ++ (e.reduce a.symbols).diagnostics := rfl
  rw [NoScopingFlaw, found, List.forall_mem_append, allowedAfter_quiet Expr.mentions_quiet,
    e.reduce_diagnostics]
  refine and_congr_right fun _ => ?_
  simp only [Expr.mentions, List.forall_mem_map, List.mem_filterMap, forall_exists_index, and_imp]
  constructor
  · intro clean use n inside said
    exact (flaw?_scoping reflects).1 (fun d flaw => clean d n inside flaw) use said
  · intro allowed d n inside flaw
    exact (flaw?_scoping reflects).2 (fun use said => allowed use n inside said) d flaw

theorem declare_judges (reflects : Reflects a.symbols before place) {fixed : Bool}
    {repeated : Diagnostic} (scoping : repeated.kind.isScoping = true) (value : Value) :
    Judges a (a.declare name fixed position repeated value) before
      [⟨place, .declares name fixed⟩] place := by
  unfold declare
  by_cases taken : (a.symbols.function? name).isSome = true
  · rw [if_pos taken]
    refine .refused rfl fun allowed => ?_
    exact allowed.2 (reflects.function?_isSome.1 taken)
  · rw [if_neg taken]
    cases declared : a.symbols.declare? name fixed position with
    | none => exact .refused scoping fun allowed => allowed.1 (reflects.declare?_eq_none.1 declared)
    | some symbols =>
      have new : name ∉ namesAt before place := by
        intro listed
        rw [reflects.declare?_eq_none.2 listed] at declared
        cases declared
      have allowed : Mention.Allowed before ⟨place, .declares name fixed⟩ :=
        ⟨new, fun listed => taken (reflects.function?_isSome.2 listed)⟩
      exact .granted rfl allowed ((reflects.declare declared allowed).assign value)

theorem checkDeclarator_judges (reflects : Reflects a.symbols before place) {fixed : Bool}
    {d : Declarator} :
    Judges a (checkDeclarator fixed a d) before (d.mentions place fixed) place := by
  unfold checkDeclarator Declarator.mentions
  dsimp only
  cases d.value with
  | none => exact declare_judges reflects rfl _
  | some e =>
    exact (evaluate_judges reflects).trans declare_grows fun reflects => declare_judges reflects rfl _

theorem foldl_judges {α : Type} {step : Analysis → α → Analysis} {said : α → List Mention}
    (grows : ∀ a x, a.diagnostics <+: (step a x).diagnostics)
    (each : ∀ a x before, Reflects a.symbols before place →
      Judges a (step a x) before (said x) place)
    (xs : List α) (reflects : Reflects a.symbols before place) :
    Judges a (xs.foldl step a) before (xs.flatMap said) place := by
  induction xs generalizing a before with
  | nil => exact .nothing reflects
  | cons x xs ih => exact (each a x before reflects).trans (foldl_grows grows) ih

theorem statement_judges {m : Mention} (quiet : m.Quiet) (reflects : Reflects a.symbols before place)
    (kept : Reflects b.symbols before place)
    (own : b.NoScopingFlaw ↔ (a.evaluate e).NoScopingFlaw ∧ m.Allowed before) :
    Judges a b before (m :: e.mentions place) place := by
  have all : ∀ m' ∈ m :: e.mentions place, m'.Quiet :=
    List.forall_mem_cons.2 ⟨quiet, Expr.mentions_quiet⟩
  refine ⟨?_, kept.quiet all⟩
  rw [own, (evaluate_judges reflects).clean, allowedAfter_cons_quiet all, and_assoc,
    and_comm (a := m.Allowed before)]

theorem combine_not_scoping {op : Arithmetic} {previous value : Value} :
    ∀ d ∈ (combine op previous value position).2, d.kind.isScoping = false := by
  unfold combine
  cases Value.applyBinary (.arithmetic op) previous value with
  | ok combined => simp
  | error failure =>
    simp only [List.mem_singleton, forall_eq]
    cases failure <;> rfl

theorem checkAssignment_judges (reflects : Reflects a.symbols before place) {op : AssignOp} :
    Judges a (a.checkAssignment name position op e) before
      (⟨place, .assigns name⟩ :: e.mentions place) place := by
  have refused {d : Diagnostic} (scoping : d.kind.isScoping = true)
      (forbidden : ¬ Mention.Allowed before ⟨place, .assigns name⟩) :
      Judges a ((a.evaluate e).report d) before (⟨place, .assigns name⟩ :: e.mentions place) place :=
    statement_judges ⟨rfl, rfl⟩ reflects reflects
      (iff_of_false (not_noScopingFlaw_report scoping) fun both => forbidden both.2)
  unfold checkAssignment
  dsimp only
  cases found : a.symbols.lookup? name with
  | none =>
    refine refused rfl fun allowed => ?_
    obtain ⟨symbol, seen, -⟩ := reflects.assignable.2 allowed
    rw [found] at seen
    cases seen
  | some symbol =>
    dsimp only
    by_cases fixed : symbol.fixed = true
    · rw [if_pos fixed]
      refine refused rfl fun allowed => ?_
      obtain ⟨other, seen, free⟩ := reflects.assignable.2 allowed
      rw [found] at seen
      cases seen
      rw [fixed] at free
      cases free
    · rw [if_neg fixed]
      have allowed := reflects.assignable.1 ⟨symbol, found, Bool.eq_false_iff.2 fixed⟩
      cases op with
      | assign =>
        exact statement_judges ⟨rfl, rfl⟩ reflects (reflects.assign _)
          ⟨fun clean => ⟨clean, allowed⟩, And.left⟩
      | compound op =>
        refine statement_judges ⟨rfl, rfl⟩ reflects (reflects.assign _) ?_
        -- The flaws of the operation are about values.
        dsimp only
        rw [NoScopingFlaw, assign, List.forall_mem_append]
        exact ⟨fun both => ⟨both.1, allowed⟩, fun both => ⟨both.1, combine_not_scoping⟩⟩

theorem register_judges (reflects : Reflects a.symbols before place) {parameters : List String} :
    Judges a (a.register name parameters position) before
      [⟨place, .defines name parameters.length⟩] place := by
  have visible : (a.symbols.lookup? name).isSome = true →
      ¬ Mention.Allowed before ⟨place, .defines name parameters.length⟩ := by
    intro found allowed
    obtain ⟨body, around, listed⟩ := reflects.lookup?_isSome.1 found
    exact allowed.2 body around listed
  unfold register
  by_cases global : (a.symbols.global? name).isSome = true
  · rw [if_pos global]
    exact .refused rfl (visible (SymbolTable.lookup?_of_global reflects.sound global))
  rw [if_neg global]
  by_cases seen : (a.symbols.lookup? name).isSome = true
  · rw [if_pos seen]
    exact .refused rfl (visible seen)
  rw [if_neg seen]
  cases defined : a.symbols.declareFunction? name parameters position with
  | none =>
    exact .refused rfl fun allowed => allowed.1 (reflects.declareFunction?_eq_none.1 defined)
  | some symbols =>
    have new : name ∉ functionNames before := by
      intro listed
      rw [reflects.declareFunction?_eq_none.2 listed] at defined
      cases defined
    have allowed : Mention.Allowed before ⟨place, .defines name parameters.length⟩ :=
      ⟨new, fun body around listed => seen (reflects.lookup?_isSome.2 ⟨body, around, listed⟩)⟩
    exact .granted rfl allowed (reflects.define defined allowed)

theorem opened_judges (reflects : Reflects a.symbols before place) {index : Nat}
    {parameters : List Parameter} (fresh : variablesAt before (index :: place) = []) :
    Judges a (a.opened name position parameters) before (headMentions place index name parameters)
      (index :: place) := by
  have registered : Judges a (a.register name (parameters.map (·.name)) position) before
      [⟨place, .defines name parameters.length⟩] place := by
    have count : (parameters.map (·.name)).length = parameters.length := List.length_map ..
    rw [← count]
    exact register_judges reflects
  have entered : Judges a (a.register name (parameters.map (·.name)) position).enter before
      [⟨place, .defines name parameters.length⟩] (index :: place) := by
    refine registered.move rfl fun reflects => reflects.enter ?_
    rw [variablesAt_append, fresh, variablesAt_defines, List.append_nil]
  have each : ∀ a p before, Reflects a.symbols before (index :: place) →
      Judges a (checkParameter name a p) before [⟨index :: place, .declares p.name false⟩]
        (index :: place) :=
    fun _ _ _ reflects => declare_judges reflects rfl _
  rw [headMentions, List.map_eq_flatMap]
  exact entered.trans (foldl_grows fun _ _ => declare_grows)
    (foldl_judges (fun _ _ => declare_grows) each parameters)

-- No function at or after that position has declared anything in its body.
def Fresh (before : List Mention) (place : Place) (index : Nat) : Prop :=
  ∀ later body, index ≤ later → (later :: place) <:+ body → variablesAt before body = []

namespace Fresh

variable {index : Nat}

theorem after {s : Stmt} (fresh : Fresh before place index) :
    Fresh (before ++ s.mentions place index) place (index + 1) := by
  intro later body after inside
  rw [variablesAt_append, fresh later body (Nat.le_of_succ_le after) inside, List.nil_append]
  refine variablesAt_elsewhere fun m listed here => ?_
  rcases Stmt.mentions_place m listed with own | deeper
  · have longer := inside.length_le
    rw [← here, own] at longer
    exact Nat.not_succ_le_self _ longer
  · rw [here] at deeper
    have shorter := List.suffix_of_suffix_length_le deeper inside (Nat.le_refl _)
    have same := (List.cons.inj (shorter.eq_of_length rfl)).1
    exact Nat.not_succ_le_self _ (same ▸ after)

theorem within {parameters : List Parameter} (fresh : Fresh before place index) :
    Fresh (before ++ headMentions place index name parameters) (index :: place) 0 := by
  intro later body _ inside
  have deeper : (index :: place) <:+ body := (List.suffix_cons ..).trans inside
  have longer := inside.length_le
  rw [variablesAt_append, fresh index body (Nat.le_refl _) deeper, List.nil_append]
  refine variablesAt_elsewhere fun m listed => ?_
  rcases List.mem_cons.1 listed with rfl | parameter
  · rintro rfl
    exact Nat.not_succ_le_self _ (Nat.le_of_succ_le longer)
  · obtain ⟨p, -, rfl⟩ := List.mem_map.1 parameter
    rintro rfl
    exact Nat.not_succ_le_self _ longer

end Fresh

mutual

theorem check_judges : ∀ {s : Stmt} {a : Analysis} {before : List Mention} {place : Place}
    {index : Nat}, Reflects a.symbols before place → Fresh before place index →
      Judges a (a.check (!place.isEmpty) s) before (s.mentions place index) place
  | .declaration _ fixed declarators, _, _, place, _, reflects, _ => by
    have each : ∀ a d before, Reflects a.symbols before place →
        Judges a (checkDeclarator fixed a d) before (d.mentions place fixed) place :=
      fun _ _ _ reflects => checkDeclarator_judges reflects
    exact foldl_judges (fun _ _ => checkDeclarator_grows) each declarators reflects
  | .assignment .., _, _, _, _, reflects, _ => checkAssignment_judges reflects
  | .function _ name nameSpan parameters body, a, before, place, index, reflects, fresh => by
    rw [check_function]
    have started : Judges a (a.opened name nameSpan.start parameters) before
        (headMentions place index name parameters) (index :: place) :=
      opened_judges reflects (fresh index _ (Nat.le_refl _) List.suffix_rfl)
    have whole : Judges a ((a.opened name nameSpan.start parameters).checkAll true body) before
        (headMentions place index name parameters ++ Stmt.mentionsAll (index :: place) 0 body)
        (index :: place) :=
      started.trans checkAll_grows fun reflects => checkAll_judges reflects fresh.within
    exact whole.move rfl fun reflects => reflects.exit
  | .throw _ value, a, before, [], _, reflects, _ =>
    statement_judges ⟨rfl, rfl⟩ reflects reflects
      (iff_of_false (not_noScopingFlaw_report rfl) fun both => both.2 rfl)
  | .throw _ value, a, before, _ :: _, _, reflects, _ =>
    statement_judges ⟨rfl, rfl⟩ reflects reflects
      ⟨fun clean => ⟨clean, List.cons_ne_nil _ _⟩, And.left⟩
  | .output .., _, _, _, _, reflects, _ | .expression .., _, _, _, _, reflects, _ =>
    evaluate_judges reflects

theorem checkAll_judges : ∀ {body : List Stmt} {a : Analysis} {before : List Mention}
    {place : Place} {index : Nat}, Reflects a.symbols before place → Fresh before place index →
      Judges a (a.checkAll (!place.isEmpty) body) before (Stmt.mentionsAll place index body) place
  | [], _, _, _, _, reflects, _ => .nothing reflects
  | _ :: _, _, _, _, _, reflects, fresh =>
    (check_judges reflects fresh).trans checkAll_grows fun reflects =>
      checkAll_judges reflects fresh.after

end

end Analysis

-- A check complains about scopes exactly if the program breaks a scoping rule.
theorem no_scoping_diagnostic_iff (program : Program) :
    (∀ d ∈ (Analysis.ofProgram program).diagnostics, d.kind.isScoping = false) ↔
      program.WellScoped := by
  have fresh : Analysis.Fresh [] [] 0 := fun _ _ _ _ => rfl
  have judges : Analysis.Judges .empty (.ofProgram program) [] program.mentions [] :=
    Analysis.checkAll_judges Reflects.empty fresh
  rw [wellScoped_iff]
  exact judges.clean.trans (and_iff_right fun d listed => by cases listed)

end Scriptlet
