import Scriptlet.Command
import Scriptlet.Proofs.Outcome

/-!
The command and the compiler agree. A command line is made of parts: one input, any number of
outputs, of which the last counts, and any number of permissions to go on after diagnostics. What
is not made of such parts is refused; for the rest, the command succeeds when the compiler does
and delivers what the compiler gives.
-/

namespace Scriptlet.Command

inductive Part where
  | input (path : String)
  | output (path : String)
  | allowErrors

namespace Part

-- How a part is written.
inductive Written : Part → List String → Prop where
  | input {path} (plain : path.toList.head? ≠ some '-') : Written (.input path) [path]
  | output {option path} (named : option = "-o" ∨ option = "--output") :
      Written (.output path) [option, path]
  | allowErrors : Written .allowErrors ["--allow-errors"]

def input? : Part → Option String
  | input path => some path
  | _ => none

def output? : Part → Option String
  | output path => some path
  | _ => none

def allows : Part → Bool
  | allowErrors => true
  | _ => false

end Part

-- The arguments are these parts, one after the other.
inductive Written : List Part → List String → Prop where
  | nil : Written [] []
  | cons {part parts words rest} (first : part.Written words) (others : Written parts rest) :
      Written (part :: parts) (words ++ rest)

-- The arguments are made of parts with one input among them, and this is what they ask for.
def Asks (arguments : List String) (invocation : Invocation) : Prop :=
  ∃ parts, Written parts arguments ∧ parts.filterMap Part.input? = [invocation.input] ∧
    invocation.output = (parts.filterMap Part.output?).getLast? ∧
    invocation.allowErrors = parts.any Part.allows

namespace Draft

def add (d : Draft) : Part → Draft
  | .input path => { d with input := some path }
  | .output path => { d with output := some path }
  | .allowErrors => { d with allowErrors := true }

-- A field that each part overwrites or leaves alone holds what was written to it last.
theorem last_written {field : Draft → Option String} {writes : Part → Option String}
    (step : ∀ d part, field (add d part) = (writes part).or (field d)) (d : Draft)
    (parts : List Part) :
    field (parts.foldl add d) = (parts.filterMap writes).getLast?.or (field d) := by
  induction parts generalizing d with
  | nil => rfl
  | cons part parts ih =>
    rw [List.foldl_cons, ih, step]
    cases found : writes part <;> simp [found, List.getLast?_cons]

theorem input_addAll (d : Draft) (parts : List Part) :
    (parts.foldl add d).input = (parts.filterMap Part.input?).getLast?.or d.input :=
  last_written (fun _ part => by cases part <;> rfl) d parts

theorem output_addAll (d : Draft) (parts : List Part) :
    (parts.foldl add d).output = (parts.filterMap Part.output?).getLast?.or d.output :=
  last_written (fun _ part => by cases part <;> rfl) d parts

theorem allowErrors_addAll (d : Draft) (parts : List Part) :
    (parts.foldl add d).allowErrors = (d.allowErrors || parts.any Part.allows) := by
  induction parts generalizing d with
  | nil => simp
  | cons part parts ih =>
    rw [List.foldl_cons, ih]
    cases part <;> simp [add, Part.allows]

-- There is room for the inputs among the parts: one in all.
def Fits (d : Draft) (parts : List Part) : Prop :=
  d.input.toList.length + (parts.filterMap Part.input?).length ≤ 1

theorem fits_nil (d : Draft) : d.Fits [] := by
  unfold Fits
  cases d.input <;> simp

theorem fits_cons {d : Draft} {part : Part} {parts : List Part} :
    d.Fits (part :: parts) ↔ d.Fits [part] ∧ (d.add part).Fits parts := by
  have single := d.fits_nil
  cases part with
  | input path =>
    simp only [Fits, add, List.filterMap_cons_some (rfl : (Part.input path).input? = _),
      List.filterMap_nil, List.length_cons, List.length_nil, Option.toList_some] at single ⊢
    omega
  | output path | allowErrors =>
    exact ⟨fun fits => ⟨single, fits⟩, And.right⟩

theorem take_ok {d d' : Draft} {argument : String} :
    d.take argument = .ok d' ↔
      ∃ part : Part, part.Written [argument] ∧ d.Fits [part] ∧ d' = d.add part := by
  unfold take
  constructor
  · intro taken
    split at taken
    · rename_i allowed
      cases taken
      exact ⟨.allowErrors, allowed ▸ .allowErrors, d.fits_nil, rfl⟩
    · split at taken
      · cases taken
      · rename_i plain
        split at taken
        · cases taken
        · rename_i free
          cases taken
          refine ⟨.input argument, .input plain, ?_, rfl⟩
          have empty : d.input = none := by simpa using free
          simp [Fits, empty, Part.input?]
  · rintro ⟨part, written, fits, rfl⟩
    cases written with
    | allowErrors => simp [add]
    | input plain =>
      have ordinary : argument ≠ "--allow-errors" := by
        rintro rfl
        exact plain rfl
      have empty : d.input = none := by
        cases found : d.input with
        | none => rfl
        | some path => simp [Fits, found, Part.input?] at fits
      simp [ordinary, plain, empty, add]

theorem isOutputOption_iff {argument : String} :
    isOutputOption argument = true ↔ argument = "-o" ∨ argument = "--output" := by
  simp [isOutputOption]

theorem not_output_of_written {part : Part} {argument : String}
    (written : part.Written [argument]) : isOutputOption argument = false := by
  cases written with
  | allowErrors => decide
  | input plain =>
    rw [Bool.eq_false_iff, ne_eq, isOutputOption_iff]
    rintro (rfl | rfl) <;> exact plain rfl

theorem takeAll_cons {d : Draft} {argument : String} {rest : List String}
    (other : isOutputOption argument = false) :
    d.takeAll (argument :: rest) = (d.take argument).bind fun d => d.takeAll rest := by
  cases rest with
  | nil =>
    rw [takeAll, other]
    cases d.take argument <;> rfl
  | cons next rest =>
    rw [takeAll, other]
    cases d.take argument <;> rfl

theorem takeAll_part {d : Draft} {part : Part} {argument : String} {rest : List String}
    (written : part.Written [argument]) (fits : d.Fits [part]) :
    d.takeAll (argument :: rest) = (d.add part).takeAll rest := by
  rw [takeAll_cons (not_output_of_written written), take_ok.2 ⟨part, written, fits, rfl⟩]
  rfl

theorem takeAll_of_written {parts : List Part} {arguments : List String}
    (written : Written parts arguments) {d : Draft} (fits : d.Fits parts) :
    d.takeAll arguments = .ok (parts.foldl add d) := by
  induction written generalizing d with
  | nil => rfl
  | cons first others ih =>
    obtain ⟨room, fits⟩ := fits_cons.1 fits
    have going := ih fits
    cases first with
    | output named =>
      have about := isOutputOption_iff.2 named
      rw [List.cons_append, List.cons_append, List.nil_append, takeAll, about]
      exact going
    | input plain => exact (takeAll_part (.input plain) room).trans going
    | allowErrors => exact (takeAll_part .allowErrors room).trans going

theorem written_cons {d d' : Draft} {part : Part} {words rest : List String}
    (first : part.Written words) (fits : d.Fits [part])
    (others : ∃ parts, Written parts rest ∧ (d.add part).Fits parts ∧
      d' = parts.foldl add (d.add part)) :
    ∃ parts, Written parts (words ++ rest) ∧ d.Fits parts ∧ d' = parts.foldl add d := by
  obtain ⟨parts, written, fit, rfl⟩ := others
  exact ⟨part :: parts, .cons first written, fits_cons.2 ⟨fits, fit⟩, rfl⟩

theorem written_of_takeAll {arguments : List String} {d d' : Draft}
    (taken : d.takeAll arguments = .ok d') :
    ∃ parts, Written parts arguments ∧ d.Fits parts ∧ d' = parts.foldl add d := by
  fun_induction takeAll d arguments with
  | case1 d =>
    cases taken
    exact ⟨[], .nil, fits_nil _, rfl⟩
  | case2 d argument about => cases taken
  | case3 d argument other =>
    obtain ⟨part, written, fits, rfl⟩ := take_ok.1 taken
    exact written_cons written fits ⟨[], .nil, fits_nil _, rfl⟩
  | case4 d argument next rest about ih =>
    exact written_cons (.output (isOutputOption_iff.1 about)) d.fits_nil (ih taken)
  | case5 d argument next rest other e failed => cases taken
  | case6 d argument next rest other mid took ih =>
    obtain ⟨part, written, fits, rfl⟩ := take_ok.1 took
    exact written_cons written fits (ih taken)

end Draft

theorem ofArguments_ok_iff {arguments : List String} {invocation : Invocation} :
    Invocation.ofArguments arguments = .ok invocation ↔ Asks arguments invocation := by
  constructor
  · intro taken
    unfold Invocation.ofArguments at taken
    split at taken
    · cases taken
    · rename_i d took
      split at taken
      · cases taken
      · rename_i input found
        cases taken
        obtain ⟨parts, written, fits, rfl⟩ := Draft.written_of_takeAll took
        rw [Draft.input_addAll, Option.or_none] at found
        refine ⟨parts, written, ?_, ?_, ?_⟩
        · obtain ⟨before, split⟩ := List.getLast?_eq_some_iff.1 found
          have short : before.length = 0 := by
            simpa [Draft.Fits, split] using fits
          simpa [List.eq_nil_of_length_eq_zero short] using split
        · rw [Draft.output_addAll, Option.or_none]
        · rw [Draft.allowErrors_addAll, Bool.false_or]
  · rintro ⟨parts, written, single, last, allowed⟩
    have fits : Draft.Fits {} parts := by simp [Draft.Fits, single]
    have input : (parts.foldl Draft.add {}).input = some invocation.input := by
      rw [Draft.input_addAll, single]
      rfl
    have output : (parts.foldl Draft.add {}).output = invocation.output := by
      rw [Draft.output_addAll, last, Option.or_none]
    have allows : (parts.foldl Draft.add {}).allowErrors = invocation.allowErrors := by
      rw [Draft.allowErrors_addAll, allowed, Bool.false_or]
    unfold Invocation.ofArguments
    rw [Draft.takeAll_of_written written fits]
    simp only [input, output, allows]

-- What the compiler is asked for.
def Invocation.options (invocation : Invocation) : CompileOptions :=
  { allowErrors := invocation.allowErrors }

-- The outcome of an invocation on a source text is what the compiler makes of it.
structure Agrees (invocation : Invocation) (source : String) (outcome : Outcome) : Prop where
  success : outcome.exitCode = 0 ↔ ∃ done, compile source invocation.options = .ok done
  delivered : ∀ done, compile source invocation.options = .ok done →
    outcome.stdout = (if invocation.output.isSome then "" else done.python) ∧
      outcome.file = invocation.output.map fun path => (path, done.python)
  failure : ∀ fault, compile source invocation.options = .error fault →
    outcome.exitCode = 1 ∧ outcome.stdout = "" ∧ outcome.file = none
  -- A text that cannot be read is reported with its fault,
  fault : ∀ fault, Program.ofSource source = .error fault →
    outcome.stderr =
      Excerpt.render source (fileName invocation.input) fault.position fault.headline
  -- any other with its diagnostics, and with their number if these are in the way.
  diagnostics : ∀ program, Program.ofSource source = .ok program →
    let found := (Analysis.ofProgram program).diagnostics
    outcome.stderr = String.join (found.map fun d =>
        Excerpt.render source (fileName invocation.input) d.position d.headline) ++
      (if outcome.exitCode = 0 then "" else refusal found.length)

section Outcomes

variable {invocation : Invocation} {source : String} {program : Program}

theorem agrees_of_fault {fault : Fault} (read : Program.ofSource source = .error fault) :
    Agrees invocation source (run invocation source) := by
  have checked : check source = .error fault := by simp [check, read]
  have compiled : compile source invocation.options = .error fault := by simp [compile, checked]
  have ran : run invocation source =
      { exitCode := 1
        stderr :=
          Excerpt.render source (fileName invocation.input) fault.position fault.headline } := by
    simp [run, checked]
  rw [ran]
  refine ⟨by simp [compiled], fun done same => ?_, fun _ _ => ⟨rfl, rfl, rfl⟩, fun other same => ?_,
    fun program same => ?_⟩
  · rw [compiled] at same
    cases same
  · rw [read] at same
    cases same
    rfl
  · rw [read] at same
    cases same

theorem agrees_of_refusal (read : Program.ofSource source = .ok program)
    (flawed : (Analysis.ofProgram program).diagnostics ≠ [])
    (strict : invocation.allowErrors = false) :
    Agrees invocation source (run invocation source) := by
  obtain ⟨first, rest, found⟩ := List.exists_cons_of_ne_nil flawed
  have checked := check_eq_ok.2 ⟨read, rfl⟩
  have compiled : compile source invocation.options =
      .error ⟨.semanticErrors (rest.length + 1), first.position⟩ := by
    simp [compile, checked, found, Invocation.options, strict]
  have ran : run invocation source =
      { exitCode := 1
        stderr := reports source (fileName invocation.input) (first :: rest) ++
          refusal (first :: rest).length } := by
    simp [run, checked, Analysis.accepted, found, strict]
  rw [ran]
  refine ⟨by simp [compiled], fun done same => ?_, fun _ _ => ⟨rfl, rfl, rfl⟩, fun fault same => ?_,
    fun other same => ?_⟩
  · rw [compiled] at same
    cases same
  · rw [read] at same
    cases same
  · rw [read] at same
    cases same
    rw [found]
    rfl

theorem agrees_of_success (read : Program.ofSource source = .ok program)
    (free : (Analysis.ofProgram program).diagnostics = [] ∨ invocation.allowErrors = true) :
    Agrees invocation source (run invocation source) := by
  have checked := check_eq_ok.2 ⟨read, rfl⟩
  let analysis := Analysis.ofProgram program
  let python := generate program analysis {}
  have compiled : compile source invocation.options = .ok ⟨program, analysis, python⟩ := by
    simp only [compile, checked, Invocation.options]
    rcases free with none | allowed
    · rw [none]
      rfl
    · rw [allowed]
      cases (Analysis.ofProgram program).diagnostics <;> rfl
  have ran : run invocation source =
      { exitCode := 0, stdout := if invocation.output.isSome then "" else python
        stderr := reports source (fileName invocation.input) analysis.diagnostics
        file := invocation.output.map fun path => (path, python) } := by
    have going : (!analysis.accepted && !invocation.allowErrors) = false := by
      rcases free with none | allowed
      · simp [analysis, Analysis.accepted, none]
      · simp [allowed]
    unfold run
    simp only [checked]
    rw [going]
    cases invocation.output <;> rfl
  rw [ran]
  refine ⟨by simp [compiled], fun done same => ?_, fun fault same => ?_, fun fault same => ?_,
    fun other same => ?_⟩
  · rw [compiled] at same
    cases same
    exact ⟨rfl, rfl⟩
  · rw [compiled] at same
    cases same
  · rw [read] at same
    cases same
  · rw [read] at same
    cases same
    exact (String.append_empty).symm

end Outcomes

theorem run_agrees (invocation : Invocation) (source : String) :
    Agrees invocation source (run invocation source) := by
  cases read : Program.ofSource source with
  | error fault => exact agrees_of_fault read
  | ok program =>
    by_cases clean : (Analysis.ofProgram program).diagnostics = []
    · exact agrees_of_success read (.inl clean)
    · cases allowed : invocation.allowErrors with
      | true => exact agrees_of_success read (.inr allowed)
      | false => exact agrees_of_refusal read clean allowed

theorem Agrees.exitCode_ne {invocation : Invocation} {source : String} {outcome : Outcome}
    (agrees : Agrees invocation source outcome) : outcome.exitCode ≠ 2 := by
  cases compiled : compile source invocation.options with
  | ok done =>
    rw [agrees.success.2 ⟨done, compiled⟩]
    decide
  | error fault =>
    rw [(agrees.failure fault compiled).1]
    decide

-- Reading is assumed to succeed, whatever it does besides.
theorem answer_agrees {m : Type → Type} [Monad m] [LawfulMonad m]
    {read : String → m (Except String String)} {arguments : List String} {source : String}
    (readable : ∀ invocation, Asks arguments invocation →
      read invocation.input = pure (.ok source)) :
    ∃ outcome, answer read arguments = pure outcome ∧
      (outcome.exitCode = 2 ↔ ¬ ∃ invocation, Asks arguments invocation) ∧
      (outcome.exitCode = 2 → outcome.stdout = "" ∧ outcome.file = none) ∧
      ∀ invocation, Asks arguments invocation → Agrees invocation source outcome := by
  cases taken : Invocation.ofArguments arguments with
  | error e =>
    have unasked : ¬ ∃ invocation, Asks arguments invocation := by
      rintro ⟨invocation, asks⟩
      rw [ofArguments_ok_iff.2 asks] at taken
      cases taken
    refine ⟨misused e, by simp [answer, taken], ⟨fun _ => unasked, fun _ => rfl⟩,
      fun _ => ⟨rfl, rfl⟩, fun invocation asks => absurd ⟨invocation, asks⟩ unasked⟩
  | ok invocation =>
    have asks := ofArguments_ok_iff.1 taken
    have agrees := run_agrees invocation source
    have other := agrees.exitCode_ne
    refine ⟨run invocation source, by simp [answer, taken, readable invocation asks],
      ⟨fun misused => absurd misused other, fun unasked => absurd ⟨invocation, asks⟩ unasked⟩,
      fun misused => absurd misused other, fun same asksSame => ?_⟩
    rw [ofArguments_ok_iff.2 asksSame] at taken
    cases taken
    exact agrees

-- The first output looks like an option, and the text has a diagnostic.
def mixedArguments : List String :=
  ["-o", "--output", "main.mn", "--allow-errors", "--output", "out.py"]

theorem mixedArguments_agree : ∃ outcome : Outcome,
    answer (m := Id) (fun _ => .ok "show y;") mixedArguments = outcome ∧
    Asks mixedArguments ⟨"main.mn", some "out.py", true⟩ ∧ outcome.exitCode = 0 ∧
    outcome.stdout = "" ∧ outcome.file.map Prod.fst = some "out.py" := by
  obtain ⟨outcome, answered, -, -, agrees⟩ :=
    @answer_agrees Id _ _ (fun _ => .ok "show y;") mixedArguments "show y;" fun _ _ => rfl
  have asks : Asks mixedArguments ⟨"main.mn", some "out.py", true⟩ :=
    ofArguments_ok_iff.1 rfl
  have found : ((compile "show y;" { allowErrors := true }).toOption.any fun _ => true) = true := by
    decide +kernel
  obtain ⟨done, compiled, -⟩ := ok_of_any found
  have delivered := (agrees _ asks).delivered done compiled
  exact ⟨outcome, answered, asks, (agrees _ asks).success.2 ⟨done, compiled⟩, delivered.1,
    by rw [delivered.2]; rfl⟩

end Scriptlet.Command
