import Scriptlet.Analysis.Check
import Scriptlet.Proofs.Scope.Names
import Scriptlet.Proofs.Tree.Names

/-!
What an accepted check says about names. A check never takes a diagnostic back, so a program that
is accepted was clean at every step: each name it uses is known at that point, each name it
declares is new in its scope, and no visible variable ever has the name of a function. After a
statement the names are those from before and the ones that the statement declares.
-/

namespace Scriptlet

namespace Reduction

variable {node : Node} {parts : List Reduction} {value : Value} {own : List Diagnostic}

theorem ofParts_clean : (ofParts node parts value own).diagnostics = [] ↔
    (∀ part ∈ parts, part.diagnostics = []) ∧ own = [] := by
  simp [ofParts, List.flatMap_eq_nil_iff]

theorem ofOutcome_clean {outcome : Except ValueFailure Value} :
    (ofOutcome node parts outcome).diagnostics = [] ↔
      (∀ part ∈ parts, part.diagnostics = []) ∧ ∃ value, outcome = .ok value := by
  cases outcome <;> simp [ofOutcome, ofParts_clean]

end Reduction

open Reduction

mutual

theorem Expr.names_known {t : SymbolTable} : ∀ {e : Expr}, (e.reduce t).diagnostics = [] →
    ∀ x ∈ e.names, t.names.Knows x
  | .literal _ _, _, _, member => nomatch member
  | .identifier node name, clean, x, member => by
    cases List.mem_singleton.1 member
    simp only [Expr.reduce] at clean
    split at clean
    · rename_i symbol found
      exact .inl (SymbolTable.lookup?_isSome.1 (by rw [found]; rfl))
    · simp [ofParts_clean] at clean
  | .call node callee calleeSpan arguments, clean, x, member => by
    simp only [Expr.reduce, ofParts_clean] at clean
    rcases List.mem_cons.1 member with rfl | member
    · have defined := clean.2
      unfold SymbolTable.callFlaws at defined
      split at defined
      · cases defined
      · rename_i function found
        exact .inr (SymbolTable.function?_isSome.1 (by rw [found]; rfl))
    · exact Expr.namesAll_known clean.1 x member
  | .list node items, clean, x, member => by
    simp only [Expr.reduce, ofParts_clean] at clean
    exact Expr.namesAll_known clean.1 x member
  | .binary node op left right, clean, x, member => by
    simp only [Expr.reduce, ofOutcome_clean] at clean
    rcases List.mem_append.1 member with member | member
    · exact Expr.names_known (clean.1 _ (by simp)) x member
    · exact Expr.names_known (clean.1 _ (by simp)) x member
  | .unary node op operand, clean, x, member => by
    simp only [Expr.reduce, ofOutcome_clean] at clean
    exact Expr.names_known (e := operand) (clean.1 _ (by simp)) x member
  | .cast node target operand, clean, x, member => by
    simp only [Expr.reduce, ofOutcome_clean] at clean
    exact Expr.names_known (e := operand) (clean.1 _ (by simp)) x member
  | .grouping node inner, clean, x, member => by
    simp only [Expr.reduce, ofParts_clean] at clean
    exact Expr.names_known (e := inner) (clean.1 _ (by simp)) x member

theorem Expr.namesAll_known {t : SymbolTable} : ∀ {es : List Expr},
    (∀ part ∈ Expr.reduceAll t es, part.diagnostics = []) → ∀ x ∈ Expr.namesAll es, t.names.Knows x
  | [], _, _, member => nomatch member
  | e :: es, clean, x, member => by
    simp only [Expr.reduceAll, List.forall_mem_cons] at clean
    rcases List.mem_append.1 member with member | member
    · exact Expr.names_known clean.1 x member
    · exact Expr.namesAll_known clean.2 x member

end

namespace Analysis

variable {a a' : Analysis} {e : Expr} {name : String} {x : String}

def names (a : Analysis) : Names := a.symbols.names

-- The table is sound, and its functions and visible variables have different names.
structure Orderly (a : Analysis) : Prop where
  sound : a.symbols.Sound
  apart : a.names.Apart

theorem empty_orderly : empty.Orderly := by
  refine ⟨SymbolTable.empty_sound, ?_⟩
  intro name _ member
  cases member

theorem accepted_iff : a.accepted = true ↔ a.diagnostics = [] := by
  simp [accepted, List.isEmpty_iff]

theorem report_not_accepted {d : Diagnostic} : (a.report d).accepted ≠ true := by
  simp [accepted, report]

theorem evaluate_accepted (accepted : (a.evaluate e).accepted = true) :
    a.accepted = true ∧ (e.reduce a.symbols).diagnostics = [] := by
  simpa [accepted_iff, evaluate, absorb] using accepted

-- What an accepted step from `a` to `a'` has done, if it declares these variables and functions
-- and mentions those names.
structure Stepped (a a' : Analysis) (declared functions mentioned : List String) : Prop where
  orderly : a'.Orderly
  names : a'.names = (a.names.declare declared).register functions
  known : ∀ x ∈ mentioned, a'.names.Knows x

theorem evaluate_stepped (orderly : a.Orderly) (accepted : (a.evaluate e).accepted = true) :
    Stepped a (a.evaluate e) [] [] e.names := by
  refine ⟨⟨orderly.sound, orderly.apart⟩, ?_, Expr.names_known (evaluate_accepted accepted).2⟩
  simp [names, Names.declare, Names.register, evaluate, absorb]

theorem declare_accepted {fixed : Bool} {position : Position} {repeated : Diagnostic}
    {value : Value} (accepted : (a.declare name fixed position repeated value).accepted = true) :
    ∃ symbols, name ∉ a.names.functions ∧ a.symbols.declare? name fixed position = some symbols ∧
      a.declare name fixed position repeated value =
        { a with symbols := symbols }.assign name value := by
  unfold declare at accepted ⊢
  split at accepted
  · exact absurd accepted report_not_accepted
  · rename_i free
    split at accepted
    · exact absurd accepted report_not_accepted
    · rename_i symbols declared
      refine ⟨symbols, ?_, declared, ?_⟩
      · rwa [SymbolTable.function?_isSome] at free
      · rw [if_neg free]

theorem declare_stepped (orderly : a.Orderly) {fixed : Bool} {position : Position}
    {repeated : Diagnostic} {value : Value}
    (accepted : (a.declare name fixed position repeated value).accepted = true) :
    Stepped a (a.declare name fixed position repeated value) [name] [] [name] := by
  obtain ⟨symbols, free, declared, same⟩ := declare_accepted accepted
  rw [same]
  obtain ⟨declaredNames, sound⟩ := SymbolTable.declare?_names orderly.sound declared
  have after : ({ a with symbols := symbols }.assign name value).names = a.names.declare [name] :=
    (SymbolTable.assign_names value).trans declaredNames
  refine ⟨⟨SymbolTable.assign_sound sound value, ?_⟩, ?_, ?_⟩
  · rw [after]
    intro other seen
    rcases Names.sees_declare.1 seen with old | new
    · exact orderly.apart other old
    · cases List.mem_singleton.1 new
      exact free
  · rw [after]
    simp [Names.register, Names.declare]
  · intro other member
    rw [after]
    exact .inl (Names.sees_declare.2 (.inr member))

theorem register_accepted {parameters : List String} {position : Position}
    (accepted : (a.register name parameters position).accepted = true) :
    ∃ symbols, ¬ a.names.Sees name ∧
      a.symbols.declareFunction? name parameters position = some symbols ∧
      a.register name parameters position = { a with symbols := symbols } := by
  unfold register at accepted ⊢
  split at accepted
  · exact absurd accepted report_not_accepted
  · rename_i notGlobal
    split at accepted
    · exact absurd accepted report_not_accepted
    · rename_i unseen
      split at accepted
      · exact absurd accepted report_not_accepted
      · rename_i symbols declared
        refine ⟨symbols, ?_, declared, ?_⟩
        · rwa [SymbolTable.lookup?_isSome] at unseen
        · rw [if_neg notGlobal, if_neg unseen]

theorem register_stepped (orderly : a.Orderly) {parameters : List String} {position : Position}
    (accepted : (a.register name parameters position).accepted = true) :
    Stepped a (a.register name parameters position) [] [name] [name] ∧ ¬ a.names.Knows name := by
  obtain ⟨symbols, unseen, declared, same⟩ := register_accepted accepted
  rw [same]
  obtain ⟨after, sound⟩ := SymbolTable.declareFunction?_names orderly.sound declared
  have fresh : name ∉ a.names.functions :=
    SymbolTable.declareFunction?_isSome.1 (by rw [declared]; rfl)
  have after : ({ a with symbols := symbols }).names = a.names.register [name] := after
  refine ⟨⟨⟨sound, ?_⟩, ?_, ?_⟩, not_or.2 ⟨unseen, fresh⟩⟩
  · rw [after]
    intro other seen member
    rcases List.mem_append.1 member with old | new
    · exact orderly.apart other seen old
    · cases List.mem_singleton.1 new
      exact unseen seen
  · rw [after]
    simp [Names.register, Names.declare]
  · intro other member
    rw [after]
    exact .inr (List.mem_append_right _ member)

end Analysis

theorem Names.knows_mono {names : Names} {declared functions : List String} {x : String}
    (known : names.Knows x) : ((names.declare declared).register functions).Knows x := by
  rcases known with seen | defined
  · exact .inl (Names.sees_declare.2 (.inl seen))
  · exact .inr (List.mem_append_left _ defined)

namespace Analysis

variable {a a' a'' : Analysis} {x : String} {declared functions mentioned : List String}

theorem Stepped.knows (step : Stepped a a' declared functions mentioned)
    (known : a.names.Knows x) : a'.names.Knows x := by
  rw [step.names]
  exact Names.knows_mono known

theorem Stepped.refl (orderly : a.Orderly) : Stepped a a [] [] [] := by
  refine ⟨orderly, ?_, by simp⟩
  simp [Names.declare, Names.register]

theorem Stepped.trans {declared' functions' mentioned' : List String}
    (first : Stepped a a' declared functions mentioned)
    (second : Stepped a' a'' declared' functions' mentioned') :
    Stepped a a'' (declared ++ declared') (functions ++ functions') (mentioned ++ mentioned') := by
  refine ⟨second.orderly, ?_, ?_⟩
  · rw [second.names, first.names]
    simp [Names.declare, Names.register]
  · intro x member
    rcases List.mem_append.1 member with early | late
    · exact second.knows (first.known x early)
    · exact second.known x late

theorem Stepped.mention {mentioned' : List String}
    (step : Stepped a a' declared functions mentioned) (fewer : ∀ x ∈ mentioned', x ∈ mentioned) :
    Stepped a a' declared functions mentioned' :=
  { step with known := fun x member => step.known x (fewer x member) }

theorem declare_before {name : String} {fixed : Bool} {position : Position} {repeated : Diagnostic}
    {value : Value} (accepted : (a.declare name fixed position repeated value).accepted = true) :
    a.accepted = true := by
  obtain ⟨symbols, -, -, same⟩ := declare_accepted accepted
  rw [same] at accepted
  exact accepted

theorem checkDeclarator_before {fixed : Bool} {d : Declarator}
    (accepted : (checkDeclarator fixed a d).accepted = true) : a.accepted = true := by
  unfold checkDeclarator at accepted
  dsimp only at accepted
  split at accepted
  · exact declare_before accepted
  · exact (evaluate_accepted (declare_before accepted)).1

theorem checkParameter_before {function : String} {p : Parameter}
    (accepted : (checkParameter function a p).accepted = true) : a.accepted = true :=
  declare_before accepted

theorem register_before {name : String} {parameters : List String} {position : Position}
    (accepted : (a.register name parameters position).accepted = true) : a.accepted = true := by
  obtain ⟨symbols, -, -, same⟩ := register_accepted accepted
  rw [same] at accepted
  exact accepted

theorem foldl_before {α : Type} {step : Analysis → α → Analysis} {xs : List α}
    (before : ∀ a x, (step a x).accepted = true → a.accepted = true)
    (accepted : (xs.foldl step a).accepted = true) : a.accepted = true := by
  induction xs generalizing a with
  | nil => exact accepted
  | cons x xs ih => exact before a x (ih accepted)

theorem checkAssignment_accepted {name : String} {position : Position} {op : AssignOp} {e : Expr}
    (accepted : (a.checkAssignment name position op e).accepted = true) :
    ∃ symbol, a.symbols.lookup? name = some symbol ∧
      ((op = .assign ∧
          a.checkAssignment name position op e =
            (a.evaluate e).assign name (e.reduce a.symbols).value) ∨
        ∃ arithmetic combined, op = .compound arithmetic ∧
          Value.applyBinary (.arithmetic arithmetic) symbol.value (e.reduce a.symbols).value =
            .ok combined ∧
          a.checkAssignment name position op e =
            { a.evaluate e with
              targets := a.targets.insert e.id symbol.value }.assign name combined) := by
  unfold checkAssignment at accepted ⊢
  dsimp only at accepted ⊢
  cases found : a.symbols.lookup? name with
  | none =>
    simp only [found] at accepted
    exact absurd accepted report_not_accepted
  | some symbol =>
    simp only [found] at accepted ⊢
    refine ⟨symbol, rfl, ?_⟩
    split at accepted
    · exact absurd accepted report_not_accepted
    · rename_i changeable
      cases op with
      | assign => exact .inl ⟨rfl, by rw [if_neg changeable]⟩
      | compound op =>
        unfold combine at accepted ⊢
        cases outcome : Value.applyBinary (.arithmetic op) symbol.value
            (e.reduce a.symbols).value with
        | ok combined =>
          refine .inr ⟨op, combined, rfl, outcome, ?_⟩
          rw [if_neg changeable]
          simp only [outcome, List.append_nil]
          rfl
        | error failure =>
          simp only [outcome, accepted_iff] at accepted
          cases (List.append_eq_nil_iff.1 accepted).2

theorem checkAssignment_before {name : String} {position : Position} {op : AssignOp} {e : Expr}
    (accepted : (a.checkAssignment name position op e).accepted = true) :
    (a.evaluate e).accepted = true := by
  obtain ⟨symbol, -, ⟨-, same⟩ | ⟨_, _, -, -, same⟩⟩ := checkAssignment_accepted accepted
  · rw [same] at accepted
    exact accepted
  · rw [same] at accepted
    exact accepted

mutual

theorem check_before {inFunction : Bool} : ∀ {s : Stmt} {a : Analysis},
    (a.check inFunction s).accepted = true → a.accepted = true
  | .declaration _ fixed declarators, a, accepted =>
    foldl_before (fun _ _ => checkDeclarator_before) accepted
  | .assignment _ name nameSpan op value, a, accepted =>
    (evaluate_accepted (checkAssignment_before accepted)).1
  | .function _ name nameSpan parameters body, a, accepted => by
    have entered :=
      foldl_before (fun _ _ => checkParameter_before) (checkAll_before (s := body) accepted)
    exact register_before entered
  | .output _ value, a, accepted => (evaluate_accepted accepted).1
  | .throw span value, a, accepted => by
    simp only [check] at accepted
    split at accepted
    · exact (evaluate_accepted accepted).1
    · exact absurd accepted report_not_accepted
  | .expression _ value, a, accepted => (evaluate_accepted accepted).1

theorem checkAll_before {inFunction : Bool} : ∀ {s : List Stmt} {a : Analysis},
    (a.checkAll inFunction s).accepted = true → a.accepted = true
  | [], _, accepted => accepted
  | _ :: _, _, accepted => check_before (checkAll_before accepted)

end

theorem checkDeclarator_stepped {fixed : Bool} {d : Declarator} (orderly : a.Orderly)
    (accepted : (checkDeclarator fixed a d).accepted = true) :
    Stepped a (checkDeclarator fixed a d) [d.name] [] d.names := by
  unfold checkDeclarator at accepted ⊢
  unfold Declarator.names
  dsimp only at accepted ⊢
  cases value : d.value with
  | none =>
    simp only [value] at accepted ⊢
    exact declare_stepped orderly accepted
  | some e =>
    simp only [value] at accepted ⊢
    have first := evaluate_stepped orderly (declare_before accepted)
    refine (first.trans (declare_stepped first.orderly accepted)).mention ?_
    intro x member
    rcases List.mem_cons.1 member with rfl | used
    · simp
    · exact List.mem_append_left _ used

theorem foldl_stepped {α : Type} {step : Analysis → α → Analysis} {declares : α → String}
    {mentions : α → List String} {xs : List α}
    (before : ∀ a x, (step a x).accepted = true → a.accepted = true)
    (each : ∀ a x, a.Orderly → (step a x).accepted = true →
      Stepped a (step a x) [declares x] [] (mentions x))
    (orderly : a.Orderly) (accepted : (xs.foldl step a).accepted = true) :
    Stepped a (xs.foldl step a) (xs.map declares) [] (xs.flatMap mentions) := by
  induction xs generalizing a with
  | nil => exact .refl orderly
  | cons x xs ih =>
    have first := each a x orderly (foldl_before before accepted)
    simpa using first.trans (ih first.orderly accepted)

theorem parameters_stepped {function : String} {ps : List Parameter} (orderly : a.Orderly)
    (accepted : (ps.foldl (checkParameter function) a).accepted = true) :
    Stepped a (ps.foldl (checkParameter function) a) (ps.map (·.name)) [] [] := by
  have each : ∀ a p, a.Orderly → (checkParameter function a p).accepted = true →
      Stepped a (checkParameter function a p) [p.name] [] [p.name] := by
    intro a p orderly accepted
    exact declare_stepped orderly accepted
  exact (foldl_stepped (fun _ _ => checkParameter_before) each orderly accepted).mention (by simp)

theorem checkAssignment_stepped (orderly : a.Orderly) {name : String} {position : Position}
    {op : AssignOp} {e : Expr}
    (accepted : (a.checkAssignment name position op e).accepted = true) :
    Stepped a (a.checkAssignment name position op e) [] [] (name :: e.names) ∧
      a.names.Sees name := by
  have evaluated := evaluate_stepped orderly (checkAssignment_before accepted)
  obtain ⟨symbol, found, done⟩ := checkAssignment_accepted accepted
  have seen : a.names.Sees name := SymbolTable.lookup?_isSome.1 (by rw [found]; rfl)
  refine ⟨?_, seen⟩
  -- Whatever the new value is, the names stay.
  have assigned : ∀ {b : Analysis} {value : Value}, b.symbols = a.symbols →
      Stepped a (b.assign name value) [] [] (name :: e.names) := by
    intro b value same
    have names : (b.assign name value).names = a.names := by
      rw [← (show b.names = a.names from congrArg SymbolTable.names same)]
      exact SymbolTable.assign_names value
    refine ⟨⟨SymbolTable.assign_sound (same ▸ orderly.sound) value, names ▸ orderly.apart⟩, ?_, ?_⟩
    · rw [names]
      simp [Names.declare, Names.register]
    · intro x member
      rw [names]
      rcases List.mem_cons.1 member with rfl | used
      · exact .inl seen
      · exact evaluated.known x used
  rcases done with ⟨-, same⟩ | ⟨_, _, -, -, same⟩
  · rw [same]
    exact assigned rfl
  · rw [same]
    exact assigned rfl

theorem enter_orderly (orderly : a.Orderly) :
    a.enter.Orderly ∧ a.enter.names = a.names.enter := by
  have names := SymbolTable.enter_names orderly.sound
  refine ⟨⟨SymbolTable.enter_sound orderly.sound, ?_⟩, names⟩
  intro x seen
  rw [Analysis.names, Analysis.enter, names] at seen ⊢
  exact orderly.apart x (Names.sees_enter.1 seen)

theorem exit_stepped {b : Analysis} {name : String} {inner functions mentioned : List String}
    (registered : Stepped a a' [] [name] [name])
    (body : Stepped a'.enter b inner functions mentioned)
    (names : a'.enter.names = a'.names.enter) :
    Stepped a b.exit [] (name :: functions) [name] := by
  have after : b.exit.names = a'.names.register functions := by
    have exited : b.exit.names = b.names.exit := SymbolTable.exit_names
    rw [exited, body.names, names]
    rfl
  refine ⟨⟨SymbolTable.exit_sound body.orderly.sound, ?_⟩, ?_, ?_⟩
  · intro x seen member
    rw [after] at seen member
    refine body.orderly.apart x ?_ ?_
    · rw [body.names, names]
      exact Names.sees_declare.2 (.inl (Names.sees_enter.2 seen))
    · rw [body.names, names]
      exact member
  · rw [after, registered.names]
    simp [Names.register, Names.declare]
  · intro x member
    rw [after]
    rcases registered.known x member with seen | defined
    · exact .inl seen
    · exact .inr (List.mem_append_left _ defined)

mutual

theorem check_stepped {inFunction : Bool} : ∀ {s : Stmt} {a : Analysis}, a.Orderly →
    (a.check inFunction s).accepted = true →
    Stepped a (a.check inFunction s) s.declared s.functions s.ownNames
  | .declaration _ fixed declarators, _, orderly, accepted =>
    foldl_stepped (fun _ _ => checkDeclarator_before) (fun _ _ => checkDeclarator_stepped)
      orderly accepted
  | .assignment _ name nameSpan op value, _, orderly, accepted =>
    (checkAssignment_stepped orderly accepted).1
  | .function _ name nameSpan parameters body, a, orderly, accepted => by
    have opened := checkAll_before (s := body) accepted
    have entered := foldl_before (fun _ _ => checkParameter_before) opened
    obtain ⟨registered, -⟩ := register_stepped orderly entered
    obtain ⟨inside, names⟩ := enter_orderly registered.orderly
    have parametersDone := parameters_stepped inside opened
    have bodyDone := checkAll_stepped (s := body) parametersDone.orderly accepted
    exact exit_stepped registered (parametersDone.trans bodyDone) names
  | .output _ value, _, orderly, accepted => evaluate_stepped orderly accepted
  | .throw span value, _, orderly, accepted => by
    simp only [check] at accepted ⊢
    split at accepted
    · rename_i inside
      simp only [inside, reduceIte]
      exact evaluate_stepped orderly accepted
    · exact absurd accepted report_not_accepted
  | .expression _ value, _, orderly, accepted => evaluate_stepped orderly accepted

theorem checkAll_stepped {inFunction : Bool} : ∀ {s : List Stmt} {a : Analysis}, a.Orderly →
    (a.checkAll inFunction s).accepted = true →
    Stepped a (a.checkAll inFunction s) (s.flatMap Stmt.declared) (Stmt.functionsAll s)
      (s.flatMap Stmt.ownNames)
  | [], _, orderly, _ => .refl orderly
  | s :: rest, a, orderly, accepted => by
    have first := check_stepped orderly (checkAll_before (s := rest) accepted)
    exact first.trans (checkAll_stepped first.orderly accepted)

end

end Analysis

end Scriptlet
