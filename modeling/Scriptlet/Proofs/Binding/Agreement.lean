import Scriptlet.Proofs.Binding.Nesting
import Scriptlet.Proofs.Outcome

/-!
Which variable an assignment in a function writes. The check takes the innermost variable that is
declared by then; Python takes the innermost one that is declared anywhere in its function. The
two are the same unless a function on the way out declares the name after the place.
-/

namespace Scriptlet

open Target

variable {a : Analysis} {levels : List Level} {s : Stmt} {name : String}

namespace Level

theorem length_definitions : (definitions a levels s).length = levels.length := by
  induction levels generalizing s with
  | nil => rfl
  | cons l outer ih => simp [definitions, ih]

theorem mem_localNames {l : Level} (plain : s.declared = []) :
    name ∈ localNames l.parameters (l.body s) ↔
      name ∈ l.declaredBefore ∨ name ∈ l.after.flatMap Stmt.declared := by
  rw [localNames_eq]
  simp [body, plain, declaredBefore, or_assoc]

theorem findIdx?_scopes {top : List String} {depth : Nat} (plain : s.declared = [])
    (found : (levels.map declaredBefore ++ [top]).findIdx? (·.contains name) = some depth) :
    ((scopes levels s).findIdx? (·.contains name)).getD levels.length = depth ↔
      ∀ l ∈ levels.take depth, name ∉ l.after.flatMap Stmt.declared := by
  induction levels generalizing s depth with
  | nil =>
    have outermost : depth = 0 := by
      rw [List.map_nil, List.nil_append, List.findIdx?_singleton] at found
      split at found
      · exact (Option.some.inj found).symm
      · cases found
    simp [scopes, outermost]
  | cons l outer ih =>
    rw [List.map_cons, List.cons_append, List.findIdx?_cons] at found
    rw [scopes, List.findIdx?_cons]
    by_cases early : name ∈ l.declaredBefore
    · rw [if_pos (by simpa using early)] at found
      have here : name ∈ localNames l.parameters (l.body s) := (mem_localNames plain).2 (.inl early)
      rw [if_pos (by simpa using here)]
      obtain rfl := Option.some.inj found
      simp
    · rw [if_neg (by simpa using early)] at found
      obtain ⟨further, outward, rfl⟩ := Option.map_eq_some_iff.1 found
      have onward := ih (s := l.close s) rfl outward
      by_cases late : name ∈ l.after.flatMap Stmt.declared
      · have here : name ∈ localNames l.parameters (l.body s) :=
          (mem_localNames plain).2 (.inr late)
        rw [if_pos (by simpa using here)]
        refine ⟨fun same => ?_, fun clear => ?_⟩
        · cases same
        · exact absurd late (clear l (by simp))
      · have absent : name ∉ localNames l.parameters (l.body s) := by
          simp [mem_localNames plain, early, late]
        rw [if_neg (by simpa using absent)]
        have step : (((scopes outer (l.close s)).findIdx? (·.contains name)).map (· + 1)).getD
            (outer.length + 1) =
              ((scopes outer (l.close s)).findIdx? (·.contains name)).getD outer.length + 1 := by
          cases (scopes outer (l.close s)).findIdx? (·.contains name) <;> rfl
        rw [List.length_cons, step, Nat.add_right_cancel_iff, onward, List.take_succ_cons,
          List.forall_mem_cons]
        exact (and_iff_right late).symm

theorem writtenAt_definitions {l : Level} {outer : List Level}
    (regular : Every Regular (l :: outer) s)
    (assigned : s.assigned = [name]) :
    writtenAt (definition a (scopes outer (l.close s)) l.name l.parameters (l.body s))
        (definitions a outer (l.close s)) (spell name) =
      some (((scopes (l :: outer) s).findIdx? (·.contains name)).getD (outer.length + 1)) := by
  have here : name ∈ (l.body s).flatMap Stmt.assigned :=
    List.mem_flatMap.2 ⟨s, by simp [body], by simp [assigned]⟩
  have named := regular.1.isName_assigned here
  have undefined : name ∉ (l.body s).flatMap Stmt.defined :=
    fun defined => (regular.1.defined_not_local defined).2 here
  have around : bindsLocally (scopes outer (l.close s)) name =
      ((scopes outer (l.close s)).findIdx? (·.contains name)).isSome := by
    rw [List.findIdx?_isSome, bindsLocally]
  rw [writtenAt, scopes, List.findIdx?_cons, findIdx?_binds regular.2 named, length_definitions]
  simp only [List.contains_iff_mem, regular.1.mem_globals named, regular.1.mem_nonlocals named,
    undefined, here, around, or_false, true_and]
  by_cases own : name ∈ localNames l.parameters (l.body s)
  · simp [own]
  · cases (scopes outer (l.close s)).findIdx? (·.contains name) <;> simp [own]

end Level

namespace Analysis

theorem inside_of_ne_nil {inFunction : Bool} (nested : levels ≠ []) :
    inside inFunction levels = true := by
  cases levels with
  | nil => exact absurd rfl nested
  | cons l outer => rfl

theorem assignment_resolves {inFunction : Bool} {top : List String} {span nameSpan : Span}
    {op : AssignOp} {value : Expr} (orderly : a.Orderly) (frames : a.names.frames = [top])
    (accepted : (a.check inFunction
      (Level.closeAll levels (.assignment span name nameSpan op value))).accepted = true) :
    ∃ depth id, (a.within levels).symbols.levelOf? name = some depth ∧
      (a.within levels).symbols.path[depth]? = some id ∧
      (a.within levels).symbols.lookup? name = (a.within levels).symbols.variableIn? id name ∧
      (levels.map Level.declaredBefore ++ [top]).findIdx? (·.contains name) = some depth := by
  have here := within_accepted accepted
  obtain ⟨reachedOrderly, reachedFrames⟩ := within_orderly orderly (check_before here)
  obtain ⟨frame, member, listed⟩ := (checkAssignment_stepped reachedOrderly here).2
  have found : ((a.within levels).symbols.levelOf? name).isSome = true := by
    rw [SymbolTable.levelOf?_eq, List.findIdx?_isSome, List.any_eq_true]
    exact ⟨frame, member, by simpa using listed⟩
  obtain ⟨depth, found⟩ := Option.isSome_iff_exists.1 found
  obtain ⟨id, opened, -, looked⟩ := SymbolTable.lookup?_of_levelOf? found
  refine ⟨depth, id, found, opened, looked, ?_⟩
  rw [← frames, ← reachedFrames, ← found]
  exact SymbolTable.levelOf?_eq.symm

end Analysis

-- Whether the line for an assignment in a function writes the variable that the check has found:
-- it does unless a function that has to be left declares the name after the place.
theorem assignment_binding_iff {source : String} {program : Program} {analysis : Analysis}
    (checked : check source = .ok (program, analysis)) (accepted : analysis.accepted = true)
    {before after : List Stmt} (nested : levels ≠ []) {span nameSpan : Span} {op : AssignOp}
    {value : Expr} (split : program.body =
      before ++ Level.closeAll levels (.assignment span name nameSpan op value) :: after) :
    let reached := (Analysis.empty.checkAll false before).within levels
    analysis = ((reached.check true (.assignment span name nameSpan op value)).resume
        levels).checkAll false after ∧
      ∃ depth id d outer line written,
        reached.symbols.levelOf? name = some depth ∧ reached.symbols.path[depth]? = some id ∧
        reached.symbols.lookup? name = reached.symbols.variableIn? id name ∧
        Nested (Stmt.lowerAll analysis [] program.body) (d :: outer) ∧
        d :: outer = Level.definitions analysis levels (.assignment span name nameSpan op value) ∧
        line ∈ d.body ∧ line.Writes (spell name) written ∧
        (writtenAt d outer (spell name) = some depth ↔
          ∀ l ∈ levels.take depth, name ∉ l.after.flatMap Stmt.declared) := by
  intro reached
  obtain ⟨orderly, passed, named⟩ := place_accepted checked accepted split
  refine ⟨?_, ?_⟩
  · obtain ⟨-, rfl⟩ := check_eq_ok.1 checked
    rw [Analysis.ofProgram, split, Analysis.checkAll_append, Analysis.checkAll,
      Analysis.check_closeAll, Analysis.inside_of_ne_nil nested]
  · have early := Analysis.checkAll_stepped Analysis.empty_orderly (Analysis.check_before passed)
    obtain ⟨depth, id, found, opened, looked, framed⟩ :=
      Analysis.assignment_resolves orderly (by rw [early.names]; rfl) passed
    have nesting : Nested (Stmt.lowerAll analysis [] program.body)
        (Level.definitions analysis levels (.assignment span name nameSpan op value)) :=
      Level.nested_definitions nested (by simp [split])
    obtain ⟨line, written, lowered, writes, -⟩ := Stmt.lower_assignment analysis
      (Level.scopes levels (.assignment span name nameSpan op value)) span name nameSpan op value
    cases levels with
    | nil => exact absurd rfl nested
    | cons l outer =>
      refine ⟨depth, id, _, _, line, written, found, opened, looked, nesting, rfl, ?_, writes, ?_⟩
      · refine List.mem_append_right _ (Stmt.mem_lowerAll.2
          ⟨.assignment span name nameSpan op value, by simp [Level.body], ?_⟩)
        exact lowered ▸ List.mem_singleton.2 rfl
      · rw [Level.writtenAt_definitions (Level.every_regular orderly passed named) rfl,
          Option.some.injEq]
        exact Level.findIdx?_scopes rfl framed

-- The inner function writes before the outer one declares a variable of the same name.
def lateSource : String := "var x = 1; func f() { func g() { x = 2; } var x = 3; }"

-- Whether the body ends in such a pair of functions, and the check takes `x` two levels up.
def writesEarly : List Stmt → Bool
  | [first, .function span₁ name₁ nameSpan₁ parameters₁
      [.function span₂ name₂ nameSpan₂ parameters₂ [.assignment _ name _ _ _], last]] =>
    decide (name = "x") && decide ("x" ∈ last.declared) &&
      decide (((Analysis.empty.checkAll false [first]).within
        [⟨span₂, name₂, nameSpan₂, parameters₂, [], []⟩,
          ⟨span₁, name₁, nameSpan₁, parameters₁, [], [last]⟩]).symbols.levelOf? "x" = some 2)
  | _ => false

theorem of_writesEarly {body : List Stmt} (holds : writesEarly body = true) :
    ∃ (first : Stmt) (inner outer : Level) (last : Stmt) (span nameSpan : Span) (op : AssignOp)
      (value : Expr),
      body = [first] ++ [Level.closeAll [inner, outer] (.assignment span "x" nameSpan op value)] ∧
      outer.after = [last] ∧ "x" ∈ last.declared ∧
      ((Analysis.empty.checkAll false [first]).within [inner, outer]).symbols.levelOf? "x" =
        some 2 := by
  unfold writesEarly at holds
  split at holds
  · simp only [Bool.and_eq_true, decide_eq_true_eq] at holds
    obtain ⟨⟨rfl, late⟩, level⟩ := holds
    exact ⟨_, ⟨_, _, _, _, [], []⟩, ⟨_, _, _, _, [], [_]⟩, _, _, _, _, _, rfl, rfl, late, level⟩
  · cases holds

-- The check takes the variable of the module, Python that of the outer function.
theorem lateSource_differs : ∃ program analysis, check lateSource = .ok (program, analysis) ∧
    analysis.accepted = true ∧
    ∃ levels before span nameSpan op value, program.body =
        before ++ [Level.closeAll levels (.assignment span "x" nameSpan op value)] ∧
      ((Analysis.empty.checkAll false before).within levels).symbols.levelOf? "x" = some 2 ∧
      ∃ d outer, Nested (Stmt.lowerAll analysis [] program.body) (d :: outer) ∧
        writtenAt d outer "x" ≠ some 2 := by
  have found : ((check lateSource).toOption.any fun result =>
      result.2.accepted && writesEarly result.1.body) = true := by decide +kernel
  obtain ⟨⟨program, analysis⟩, checked, holds⟩ := ok_of_any found
  obtain ⟨accepted, early⟩ := Bool.and_eq_true_iff.1 holds
  obtain ⟨first, inner, outer, last, span, nameSpan, op, value, place, body, late, level⟩ :=
    of_writesEarly early
  refine ⟨program, analysis, checked, accepted, _, [first], span, nameSpan, op, value, place, level,
    ?_⟩
  obtain ⟨-, depth, id, d, around, line, written, found, -, -, nesting, -, -, -, agrees⟩ :=
    assignment_binding_iff checked accepted (by simp) place
  cases found.symm.trans level
  exact ⟨d, around, nesting, fun same => agrees.1 same outer (by simp) (by simpa [body] using late)⟩

end Scriptlet
