import Scriptlet.Proofs.Outcome
import Scriptlet.Proofs.Simulation.Statement
import Scriptlet.Proofs.Target.Canonical
import Scriptlet.Proofs.Target.Recovered

/-!
Programs without functions. Every step of the check, and the lines that are written for it, keep
the variables of Python in agreement with the symbols; so the script runs to its end and shows
what the check has found.
-/

namespace Scriptlet

open Target

-- The expressions that a statement shows.
def Stmt.outputs : Stmt → List Expr
  | .output _ value => [value]
  | .declaration .. | .assignment .. | .function .. | .throw .. | .expression .. => []

variable {a b b' b'' : Analysis} {t t' : SymbolTable} {env env' : Env} {name : String} {e : Expr}
  {v : Value} {p : Object} {code code' : List Target.Stmt} {outputs outputs' : List Expr}

-- The table has one scope and no functions, and the variables of Python agree with it.
def Mirrors (t : SymbolTable) (env : Env) : Prop :=
  ∃ bindings, t = .flat bindings ∧ Agrees bindings env

namespace Mirrors

theorem empty : Mirrors .empty [] := by
  refine ⟨[], rfl, ⟨?_, ?_, fun _ _ => rfl⟩⟩
  · rintro name symbol ⟨⟩
  · rintro name symbol ⟨⟩

theorem assign (mirrors : Mirrors t env) (named : IsName name) (held : Held v p) :
    Mirrors (t.assign name v) ((spell name, p) :: env) := by
  obtain ⟨bindings, rfl, agrees⟩ := mirrors
  exact ⟨_, SymbolTable.assign_flat, agrees.assign named held⟩

theorem declare (mirrors : Mirrors t env) (named : IsName name) (held : Held v p) {fixed : Bool}
    {position : Position} (declared : t.declare? name fixed position = some t') :
    Mirrors (t'.assign name v) ((spell name, p) :: env) := by
  obtain ⟨bindings, rfl, agrees⟩ := mirrors
  obtain ⟨rfl, -⟩ := SymbolTable.declare?_flat declared
  exact ⟨_, SymbolTable.assign_flat, agrees.declare named held rfl⟩

theorem lookup (mirrors : Mirrors t env) {symbol : Symbol} (found : t.lookup? name = some symbol) :
    IsName name ∧ ∃ object, env.lookup (spell name) = some object ∧ Held symbol.value object := by
  obtain ⟨bindings, rfl, agrees⟩ := mirrors
  rw [SymbolTable.lookup?_flat] at found
  exact ⟨agrees.named name symbol found, agrees.held name symbol found⟩

theorem global (mirrors : Mirrors t env) {symbol : Symbol} (found : t.global? name = some symbol) :
    ∃ object, env.lookup (spell name) = some object ∧ Held symbol.value object := by
  obtain ⟨bindings, rfl, agrees⟩ := mirrors
  rw [SymbolTable.global?_flat] at found
  exact agrees.held name symbol found

theorem free (mirrors : Mirrors t env) : env.Free helperNames := by
  obtain ⟨bindings, -, agrees⟩ := mirrors
  exact agrees.free

theorem evaluates (mirrors : Mirrors b.symbols env) (pointless : Pointless a.values)
    (accepted : (b.evaluate e).accepted = true) (distinct : e.ids.Nodup)
    (same : ∀ id ∈ e.ids, (b.evaluate e).values[id]? = a.values[id]?) :
    Evaluates env (e.lower a) (e.reduce b.symbols).value := by
  obtain ⟨bindings, flat, agrees⟩ := mirrors
  have filed := filed_of_evaluate accepted distinct same
  rw [flat] at filed ⊢
  exact e.lower_evaluates agrees pointless filed

end Mirrors

-- What a line that shows an expression has to print.
def Analysis.shown? (a : Analysis) (e : Expr) : Option String := (a.values[e.id]?).map Value.shown

-- From `env` the lines run to `env'` without a failure and print what the analysis has on file for
-- the expressions that are shown. There the variables agree with the symbols of `b'`.
structure Follows (a b' : Analysis) (code : List Target.Stmt) (outputs : List Expr) (env env' : Env)
    (printed : List String) : Prop where
  plain : ∀ s ∈ code, s.plain
  ran : run env code = .ok (env', printed)
  mirrors : Mirrors b'.symbols env'
  shown : printed.map some = outputs.map a.shown?

-- A step of the check from `b` to `b'`, and the lines that do the same in Python.
def Simulates (a b b' : Analysis) (code : List Target.Stmt) (outputs : List Expr) : Prop :=
  ∀ env, Mirrors b.symbols env → ∃ env' printed, Follows a b' code outputs env env' printed

theorem run_append {env'' : Env} {first second : List String}
    (ran : run env code = .ok (env', first)) (ran' : run env' code' = .ok (env'', second)) :
    run env (code ++ code') = .ok (env'', first ++ second) := by
  induction code generalizing env first with
  | nil =>
    cases ran
    exact ran'
  | cons s code ih =>
    rw [run] at ran
    rw [List.cons_append, run]
    cases executed : s.exec env with
    | error => rw [executed] at ran; cases ran
    | ok one =>
      rw [executed] at ran
      cases rest : run one.1 code with
      | error =>
        simp only [bind, Except.bind, rest] at ran
        cases ran
      | ok others =>
        simp only [bind, Except.bind, rest] at ran
        cases ran
        simp only [bind, Except.bind, ih rest, pure, Except.pure, List.append_assoc]

namespace Simulates

theorem refl : Simulates a b b [] [] := fun env mirrors => ⟨env, [], by simp, rfl, mirrors, rfl⟩

theorem trans (first : Simulates a b b' code outputs) (second : Simulates a b' b'' code' outputs') :
    Simulates a b b'' (code ++ code') (outputs ++ outputs') := by
  intro env mirrors
  obtain ⟨env', early, follows⟩ := first env mirrors
  obtain ⟨env'', late, follows'⟩ := second env' follows.mirrors
  refine ⟨env'', early ++ late, ?_, run_append follows.ran follows'.ran, follows'.mirrors, ?_⟩
  · exact List.forall_mem_append.2 ⟨follows.plain, follows'.plain⟩
  · rw [List.map_append, List.map_append, follows.shown, follows'.shown]

end Simulates

theorem Follows.line {s : Target.Stmt} {printed : List String} (plain : s.plain)
    (executed : s.exec env = .ok (env', printed)) (mirrors : Mirrors b'.symbols env')
    (shown : printed.map some = outputs.map a.shown?) :
    Follows a b' [s] outputs env env' printed := by
  refine ⟨by simpa using plain, ?_, mirrors, shown⟩
  rw [run, executed]
  simp [bind, Except.bind, run, pure, Except.pure]

open Analysis

-- Steps one after the other, each of which files under numbers of its own.
theorem foldl_simulates {α : Type} {step : Analysis → α → Analysis} {numbers : α → List NodeId}
    {code : α → List Target.Stmt} {outputs : α → List Expr}
    {xs : List α} (each : ∀ x ∈ xs, ∀ b, (step b x).accepted = true → (numbers x).Nodup →
      SameFiles a (step b x) (numbers x) → Simulates a b (step b x) (code x) (outputs x))
    (before : ∀ b x, (step b x).accepted = true → b.accepted = true)
    (untouched : ∀ b x, Untouched b (step b x) (numbers x))
    (accepted : (xs.foldl step b).accepted = true) (distinct : (xs.flatMap numbers).Nodup)
    (same : SameFiles a (xs.foldl step b) (xs.flatMap numbers)) :
    Simulates a b (xs.foldl step b) (xs.flatMap code) (xs.flatMap outputs) := by
  induction xs generalizing b with
  | nil => exact .refl
  | cons x xs ih =>
    rw [List.flatMap_cons] at distinct same
    obtain ⟨own, later, apart⟩ := List.nodup_append.1 distinct
    have rest : Untouched (step b x) (xs.foldl step (step b x)) (xs.flatMap numbers) :=
      foldl_untouched untouched xs
    have first := each x List.mem_cons_self b (foldl_before before accepted) own
      (same.before rest fun id listed later => apart id listed id later rfl)
    exact first.trans (ih (fun y member => each y (List.mem_cons_of_mem x member)) accepted later
      fun id listed => same id (List.mem_append_right _ listed))

section Steps

variable (pointless : Pointless a.values)

include pointless

theorem checkDeclarator_simulates {fixed : Bool} {d : Declarator} (named : IsName d.name)
    (accepted : (checkDeclarator fixed b d).accepted = true) (distinct : d.ids.Nodup)
    (same : SameFiles a (checkDeclarator fixed b d) d.ids) :
    Simulates a b (checkDeclarator fixed b d) [declarator a d] [] := by
  intro env mirrors
  unfold checkDeclarator at accepted same ⊢
  unfold Declarator.ids at distinct same
  unfold declarator
  dsimp only at accepted same ⊢
  cases value : d.value with
  | none =>
    simp only [value] at accepted ⊢
    obtain ⟨symbols, -, declared, after⟩ := declare_accepted accepted
    rw [after]
    exact ⟨_, [], .line rfl (exec_assign rfl) (mirrors.declare named (.image .empty) declared) rfl⟩
  | some e =>
    simp only [value] at accepted same distinct ⊢
    have filed : ∀ id ∈ e.ids, (b.evaluate e).values[id]? = a.values[id]? :=
      fun id listed => declare_files.1 ▸ (same id listed).1
    obtain ⟨plain, object, evaluated, image⟩ :=
      mirrors.evaluates pointless (declare_before accepted) distinct filed
    obtain ⟨symbols, -, declared, after⟩ := declare_accepted accepted
    rw [after]
    exact ⟨_, [], .line plain (exec_assign evaluated)
      (mirrors.declare named (.image image) declared) rfl⟩

theorem checkAssignment_simulates (targets : Pointless a.targets) {span nameSpan : Span}
    {op : AssignOp} (accepted : (b.checkAssignment name nameSpan.start op e).accepted = true)
    (distinct : e.ids.Nodup)
    (same : SameFiles a (b.checkAssignment name nameSpan.start op e) e.ids) :
    Simulates a b (b.checkAssignment name nameSpan.start op e)
      ((Stmt.assignment span name nameSpan op e).lower a []) [] := by
  intro env mirrors
  have evaluated := checkAssignment_before accepted
  obtain ⟨symbol, found, ⟨rfl, after⟩ | ⟨op, combined, rfl, outcome, after⟩⟩ :=
    checkAssignment_accepted accepted
  · rw [after] at same ⊢
    obtain ⟨plain, object, computed, image⟩ :=
      mirrors.evaluates pointless evaluated distinct fun id listed => (same id listed).1
    obtain ⟨named, -⟩ := mirrors.lookup found
    exact ⟨_, [], .line plain (exec_assign computed) (mirrors.assign named (.image image)) rfl⟩
  · rw [after] at same ⊢
    have filed := filed_of_evaluate evaluated distinct fun id listed => (same id listed).1
    obtain ⟨plain, object, computed, image⟩ :=
      mirrors.evaluates pointless evaluated distinct fun id listed => (same id listed).1
    obtain ⟨named, old, bound, held⟩ := mirrors.lookup found
    -- The value before the assignment is on file, so it is no point.
    have noted : a.targets[e.id]? = some symbol.value :=
      (same e.id e.id_mem_ids).2.symm.trans Std.TreeMap.getElem?_insert_self
    obtain ⟨result, executed, kept⟩ := exec_compound mirrors.free bound
      (held.pointless (targets _ _ noted)) image computed outcome
    refine ⟨_, [], .line (compound_plain plain) ?_ (mirrors.assign named kept) rfl⟩
    rw [targetTag?, noted, filed.tag]
    exact executed

theorem check_simulates (targets : Pointless a.targets) {s : Stmt} (straight : s.defined = [])
    (named : ∀ x ∈ s.declared, IsName x) (accepted : (b.check false s).accepted = true)
    (distinct : s.ids.Nodup) (same : SameFiles a (b.check false s) s.ids) :
    Simulates a b (b.check false s) (s.lower a []) s.outputs := by
  -- The lines without an assignment leave the symbols alone.
  have evaluates : ∀ e env, Mirrors b.symbols env → (b.evaluate e).accepted = true → e.ids.Nodup →
      SameFiles a (b.evaluate e) e.ids → Evaluates env (e.lower a) (e.reduce b.symbols).value :=
    fun e env mirrors accepted distinct same =>
      mirrors.evaluates pointless accepted distinct fun id listed => (same id listed).1
  cases s with
  | declaration span fixed declarators =>
    have each : ∀ d ∈ declarators, ∀ b, (checkDeclarator fixed b d).accepted = true →
        d.ids.Nodup → SameFiles a (checkDeclarator fixed b d) d.ids →
        Simulates a b (checkDeclarator fixed b d) [declarator a d] [] := by
      intro d listed b
      exact checkDeclarator_simulates pointless (named d.name (List.mem_map_of_mem listed))
    have all := foldl_simulates each (fun _ _ => checkDeclarator_before)
      (fun _ _ => checkDeclarator_untouched) accepted distinct same
    have silent : declarators.flatMap (fun _ => []) = ([] : List Expr) := by simp
    rw [silent, ← List.map_eq_flatMap] at all
    exact all
  | assignment span name nameSpan op value =>
    exact checkAssignment_simulates pointless targets accepted distinct same
  | function => cases straight
  | output span value =>
    intro env mirrors
    obtain ⟨plain, object, evaluated, image⟩ := evaluates value env mirrors accepted distinct same
    refine ⟨env, _, .line (plain_call (by decide) plain) (exec_show mirrors.free image evaluated)
      mirrors ?_⟩
    have filed := filed_of_evaluate accepted distinct fun id listed => (same id listed).1
    rw [Stmt.outputs, List.map_singleton, List.map_singleton, shown?, filed.noted _ value.own_note]
    rfl
  | throw span value => exact absurd accepted report_not_accepted
  | expression span value =>
    intro env mirrors
    obtain ⟨plain, object, evaluated, -⟩ := evaluates value env mirrors accepted distinct same
    exact ⟨env, [], .line plain (exec_expression evaluated) mirrors rfl⟩

end Steps

theorem checkAll_eq_foldl {inFunction : Bool} (body : List Stmt) :
    b.checkAll inFunction body = body.foldl (Analysis.check inFunction) b := by
  induction body generalizing b with
  | nil => rfl
  | cons s body ih => exact ih

theorem Stmt.idsAll_eq (body : List Stmt) : Stmt.idsAll body = body.flatMap Stmt.ids := by
  induction body with
  | nil => rfl
  | cons s body ih => rw [Stmt.idsAll, ih, List.flatMap_cons]

theorem ofProgram_simulates {source : String} {program : Program}
    (read : Program.ofSource source = .ok program) (accepted : (ofProgram program).accepted = true)
    (straight : ∀ s ∈ program.body, s.defined = []) (values : Pointless (ofProgram program).values)
    (targets : Pointless (ofProgram program).targets) :
    Simulates (ofProgram program) .empty (ofProgram program)
      (Stmt.lowerAll (ofProgram program) [] program.body) (program.body.flatMap Stmt.outputs) := by
  have final : ofProgram program = program.body.foldl (Analysis.check false) .empty :=
    checkAll_eq_foldl program.body
  have distinct : (program.body.flatMap Stmt.ids).Nodup :=
    Stmt.idsAll_eq program.body ▸ (ofSource_numbered read).imp Nat.ne_of_lt
  have named : ∀ s ∈ program.body, ∀ x ∈ s.declared, IsName x := fun s listed x declared =>
    ofSource_names read x (Stmt.mem_allNamesAll.2
      ⟨s, listed, Stmt.ownNames_subset (Stmt.declared_subset declared)⟩)
  have each : ∀ s ∈ program.body, ∀ b, (b.check false s).accepted = true → s.ids.Nodup →
      SameFiles (ofProgram program) (b.check false s) s.ids →
      Simulates (ofProgram program) b (b.check false s) (s.lower (ofProgram program) [])
        s.outputs :=
    fun s listed _ => check_simulates values targets (straight s listed) (named s listed)
  rw [final] at accepted
  have all := foldl_simulates each (fun _ _ => check_before) (fun _ _ => check_untouched) accepted
    distinct (final ▸ SameFiles.refl)
  rwa [← final, ← Stmt.lowerAll_eq] at all

-- The statements of Python that the text is written from.
def Compilation.script (compiled : Compilation) : List Target.Stmt :=
  Stmt.lowerAll compiled.analysis [] compiled.program.body

-- A program without functions and points becomes a plain script that runs to its end, as it is
-- written and as its text is read. It prints what the check has found for every shown expression
-- and leaves the variables as the check does. Where a variable is left as a point, which then no
-- expression has had, Python has the quotient of the same integers.
theorem script_faithful {source : String} {options : CompileOptions} {compiled : Compilation}
    (done : compile source options = .ok compiled) (accepted : compiled.analysis.accepted = true)
    (straight : ∀ s ∈ compiled.program.body, s.defined = [])
    (values : Pointless compiled.analysis.values) (targets : Pointless compiled.analysis.targets) :
    compiled.python = scriptText options compiled.script ∧
      (∀ line ∈ compiled.script, line.plain) ∧
      ∃ env printed, run [] compiled.script = .ok (env, printed) ∧
        (∃ script, readScript Point.ofLiteral? options compiled.python = some script ∧
          run [] script = .ok (env, printed)) ∧
        printed.map some =
          (compiled.program.body.flatMap Stmt.outputs).map compiled.analysis.shown? ∧
        ∀ name symbol, compiled.analysis.symbols.global? name = some symbol →
          ∃ object, env.lookup (spell name) = some object ∧ Held symbol.value object := by
  obtain ⟨checked, python⟩ := compile_ok done
  obtain ⟨read, final⟩ := check_eq_ok.1 checked
  have simulates : Simulates compiled.analysis .empty compiled.analysis compiled.script
      (compiled.program.body.flatMap Stmt.outputs) := by
    unfold Compilation.script
    rw [final] at accepted values targets ⊢
    exact ofProgram_simulates read accepted straight values targets
  obtain ⟨env, printed, follows⟩ := simulates [] Mirrors.empty
  have recovered : readScript Point.ofLiteral? options compiled.python =
      some (Target.Stmt.canonicalAll compiled.script) :=
    python ▸ readScript_generate read compiled.analysis options
  have same : run [] (Target.Stmt.canonicalAll compiled.script) = run [] compiled.script :=
    Target.Stmt.run_canonicalAll (ofSource_readable read compiled.analysis)
  exact ⟨python.trans (generate_eq ..), follows.plain, env, printed, follows.ran,
    ⟨_, recovered, same.trans follows.ran⟩, follows.shown,
    fun name symbol found => follows.mirrors.global found⟩

instance {values : NodeValues} : Decidable (Pointless values) :=
  decidable_of_iff (∀ row ∈ values.toList, row.2.hasPoint = false) (by
    constructor
    · intro all id v found
      exact all (id, v) (Std.TreeMap.mem_toList_iff_getElem?_eq_some.2 found)
    · intro pointless row listed
      exact pointless row.1 row.2 (Std.TreeMap.mem_toList_iff_getElem?_eq_some.1 listed))

-- A list, a text and `empty` as operands, variables that change their type, and a reserved name.
def mixedSource : String :=
  "var list = [YES], e; e += 7 % ~3; list += [e]; e += \"n\" + empty; show list; show e < [list];"

theorem mixedSource_faithful : ∃ compiled, compile mixedSource {} = .ok compiled ∧
    compiled.analysis.accepted = true ∧ (∀ s ∈ compiled.program.body, s.defined = []) ∧
    Pointless compiled.analysis.values ∧ Pointless compiled.analysis.targets ∧
    ∃ env, run [] compiled.script = .ok (env, ["[YES, -2]", "NO"]) ∧
      (∃ script, readScript Point.ofLiteral? {} compiled.python = some script ∧
        run [] script = .ok (env, ["[YES, -2]", "NO"])) ∧
      ∀ name symbol, compiled.analysis.symbols.global? name = some symbol →
        ∃ object, env.lookup (spell name) = some object ∧ Held symbol.value object := by
  have found : ((compile mixedSource {}).toOption.any fun compiled => compiled.analysis.accepted &&
      decide (∀ s ∈ compiled.program.body, s.defined = []) &&
      decide (Pointless compiled.analysis.values) && decide (Pointless compiled.analysis.targets) &&
      decide ((compiled.program.body.flatMap Stmt.outputs).map compiled.analysis.shown? =
        ["[YES, -2]", "NO"].map some)) = true := by decide +kernel
  obtain ⟨compiled, done, holds⟩ := ok_of_any found
  simp only [Bool.and_eq_true, decide_eq_true_eq] at holds
  obtain ⟨⟨⟨⟨accepted, straight⟩, values⟩, targets⟩, shown⟩ := holds
  obtain ⟨-, -, env, printed, ran, ⟨script, read, ranRead⟩, same, globals⟩ :=
    script_faithful done accepted straight values targets
  have lines := (List.map_inj_right fun _ _ => Option.some.inj).1 (same.trans shown)
  exact ⟨compiled, done, accepted, straight, values, targets, env, lines ▸ ran,
    ⟨script, read, lines ▸ ranRead⟩, globals⟩

-- A compound assignment can leave a point that no expression has ever had. The zero that Python
-- computes has the other sign.
def zeroSource : String := "var x = ~4; x /= 1; x %= 2; x += \"a\"; show x;"

-- The first number is no double, so the check rounds twice and Python once.
def quotientSource : String := "var x = 99999999 * 99999999; x /= 3;"

-- Whether a symbol and a variable of Python hold different points.
def otherNumber : Option Symbol → Option Object → Bool
  | some ⟨_, _, _, .point x⟩, some (.float y) => decide (x.toBits ≠ y.toBits)
  | _, _ => false

theorem of_otherNumber {symbol? : Option Symbol} {object? : Option Object}
    (differs : otherNumber symbol? object? = true) :
    ∃ symbol x y, symbol? = some symbol ∧ symbol.value = .point x ∧ object? = some (.float y) ∧
      x.toBits ≠ y.toBits := by
  unfold otherNumber at differs
  split at differs
  · exact ⟨_, _, _, rfl, rfl, rfl, of_decide_eq_true differs⟩
  · cases differs

-- Points in variables only: the first program shows another text, and the second ends with another
-- number, although the variable was no point before its compound assignment.
theorem unfiledPoint_differs :
    (∃ compiled, compile zeroSource {} = .ok compiled ∧ compiled.analysis.accepted = true ∧
      (∀ s ∈ compiled.program.body, s.defined = []) ∧ Pointless compiled.analysis.values ∧
      (compiled.program.body.flatMap Stmt.outputs).map compiled.analysis.shown? = [some "-0.0a"] ∧
      ∃ env, run [] compiled.script = .ok (env, ["0.0a"])) ∧
    ∃ compiled, compile quotientSource {} = .ok compiled ∧ compiled.analysis.accepted = true ∧
      (∀ s ∈ compiled.program.body, s.defined = []) ∧ Pointless compiled.analysis.values ∧
      Pointless compiled.analysis.targets ∧
      ∃ env symbol x y, run [] compiled.script = .ok (env, []) ∧
        compiled.analysis.symbols.global? "x" = some symbol ∧ symbol.value = .point x ∧
        env.lookup "x" = some (.float y) ∧ x.toBits ≠ y.toBits := by
  constructor
  · have found : ((compile zeroSource {}).toOption.any fun compiled =>
        compiled.analysis.accepted && decide (∀ s ∈ compiled.program.body, s.defined = []) &&
        decide (Pointless compiled.analysis.values) &&
        decide ((compiled.program.body.flatMap Stmt.outputs).map compiled.analysis.shown? =
          [some "-0.0a"]) &&
        (run [] compiled.script).toOption.any fun result => decide (result.2 = ["0.0a"])) = true := by
      decide +kernel
    obtain ⟨compiled, done, holds⟩ := ok_of_any found
    simp only [Bool.and_eq_true, decide_eq_true_eq] at holds
    obtain ⟨⟨⟨⟨accepted, straight⟩, values⟩, shown⟩, last⟩ := holds
    obtain ⟨⟨env, printed⟩, ran, same⟩ := ok_of_any last
    cases of_decide_eq_true same
    exact ⟨compiled, done, accepted, straight, values, shown, env, ran⟩
  · have found : ((compile quotientSource {}).toOption.any fun compiled =>
        compiled.analysis.accepted && decide (∀ s ∈ compiled.program.body, s.defined = []) &&
        decide (Pointless compiled.analysis.values) &&
        decide (Pointless compiled.analysis.targets) &&
        (run [] compiled.script).toOption.any fun result => decide (result.2 = []) &&
          otherNumber (compiled.analysis.symbols.global? "x") (result.1.lookup "x")) = true := by
      decide +kernel
    obtain ⟨compiled, done, holds⟩ := ok_of_any found
    simp only [Bool.and_eq_true, decide_eq_true_eq] at holds
    obtain ⟨⟨⟨⟨accepted, straight⟩, values⟩, targets⟩, last⟩ := holds
    obtain ⟨⟨env, printed⟩, ran, differs⟩ := ok_of_any last
    obtain ⟨silent, differs⟩ := Bool.and_eq_true_iff.1 differs
    cases of_decide_eq_true silent
    obtain ⟨symbol, x, y, found, point, bound, other⟩ := of_otherNumber differs
    exact ⟨compiled, done, accepted, straight, values, targets, env, symbol, x, y, ran, found, point,
      bound, other⟩

end Scriptlet
