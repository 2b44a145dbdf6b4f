import Scriptlet.Proofs.Binding.Nesting
import Scriptlet.Proofs.Analysis.Files
import Scriptlet.Proofs.Simulation.Statement
import Scriptlet.Proofs.Target.Indentation
import Scriptlet.Proofs.Typing.Tags

/-!
Compound assignments beside the operations that they abbreviate. In an accepted program the line
for `x op= e` has the operands that `x op e` would have. It writes the operation out, or it changes
the variable in place; the latter only where the left operand is the variable as it stands and its
value is a number, a state or a text, and so never for a list that another name might share.
-/

namespace Scriptlet

open Target

variable {v w u : Value} {op : Arithmetic} {name : String} {value : Target.Expr}

theorem concatenates_iff (done : Value.applyBinary (.arithmetic .add) v w = .ok u) :
    concatenates (some u.tag) (some v.tag) (some w.tag) = true ↔ v.tag = .text ∨ w.tag = .text := by
  have tagged := Value.applyBinary_tag done
  by_cases known : v.tag = .unknown ∨ w.tag = .unknown
  · have open' : u.tag = .unknown := by rw [tagged, Tag.ofBinary, if_pos known]
    rw [open']
    rcases known with known | known
    · simp [concatenates, known]
    · simp [concatenates, known]
  · have closed : (v.isUnknown || w.isUnknown) = false := by
      rw [← Bool.not_eq_true, Bool.or_eq_true, Value.isUnknown_iff, Value.isUnknown_iff]
      exact known
    rw [Value.applyBinary, closed] at done
    cases computed done with
    | joined left right added result =>
      subst left right result
      simp [concatenates, Value.tag]
    | concatenated left right texts added result =>
      have text : u.tag = .text := by rw [result]; rfl
      simp [concatenates, text, texts]
    | counted left right result =>
      have other : u.tag ≠ .text := by
        rw [Value.numericArithmetic_tag result]
        split <;> exact Tag.noConfusion
      simp [concatenates, other, left.2, right.2]

-- The types of values that nothing else can share.
def Tag.unshared : List Tag := [.integer, .point, .state, .text]

theorem compound_operands (done : Value.applyBinary (.arithmetic op) v w = .ok u) :
    ∃ l r, Target.binary (.arithmetic op) (some u.tag) (some v.tag) (some w.tag) (.name name)
        value = .binary (.arithmetic op) l r ∧
      (compound name op (some v.tag) (some w.tag) value =
          .assign name (.binary (.arithmetic op) l r) ∨
        l = .name name ∧ v.tag ∈ Tag.unshared ∧
          compound name op (some v.tag) (some w.tag) value = .augment name op r) := by
  by_cases joins : op = .add ∧ (v.tag = .text ∨ w.tag = .text)
  · obtain ⟨rfl, texts⟩ := joins
    have added : Target.binary (.arithmetic .add) (some u.tag) (some v.tag) (some w.tag)
        (.name name) value =
          .binary (.arithmetic .add) (textOf (.name name) v.tag) (textOf value w.tag) := by
      rw [Target.binary, if_pos ⟨rfl, (concatenates_iff done).2 texts⟩]
      rfl
    refine ⟨_, _, added, ?_⟩
    by_cases text : v.tag = .text
    · rw [text]
      exact .inr ⟨rfl, by decide, rfl⟩
    · rw [texts.resolve_left text]
      generalize v.tag = tag at text
      cases tag with
      | text => exact absurd rfl text
      | _ => exact .inl rfl
  · have counted : Target.binary (.arithmetic op) (some u.tag) (some v.tag) (some w.tag)
        (.name name) value = .binary (.arithmetic op) (numericOperand (.name name) (some v.tag))
          (numericOperand value (some w.tag)) := by
      rw [Target.binary, if_neg]
      rintro ⟨rfl, concatenated⟩
      exact joins ⟨rfl, (concatenates_iff done).1 concatenated⟩
    refine ⟨_, _, counted, ?_⟩
    have apart : op = .add → v.tag ≠ .text ∧ w.tag ≠ .text :=
      fun added => not_or.1 fun texts => joins ⟨added, texts⟩
    rw [compound_counted apart]
    cases v.tag with
    | empty => exact .inl rfl
    | list | unknown => exact .inl rfl
    | integer | point | state | text => exact .inr ⟨rfl, by decide, rfl⟩

theorem Stmt.outlineAll_middle {a : Analysis} {enclosing : List (List String)} {s : Stmt}
    (before after : List Stmt) : Stmt.outlineAll a enclosing (before ++ s :: after) =
      Stmt.outlineAll a enclosing before ++ s.outline a enclosing ++
        Stmt.outlineAll a enclosing after := by
  induction before with
  | nil => rfl
  | cons first before ih => simp only [List.cons_append, Stmt.outlineAll, ih, List.append_assoc]

namespace Level

variable {levels : List Level} {s : Stmt}

-- The numbers of a statement stand in those of the functions around it, in front of the numbers
-- of everything that comes later.
theorem closeAll_ids : ∃ earlier, (closeAll levels s).ids =
    earlier ++ s.ids ++ levels.flatMap fun l => Stmt.idsAll l.after := by
  induction levels generalizing s with
  | nil => exact ⟨[], by simp [closeAll]⟩
  | cons l outer ih =>
    obtain ⟨earlier, split⟩ := @ih (l.close s)
    refine ⟨earlier ++ Stmt.idsAll l.before, ?_⟩
    rw [closeAll, split, close, body, Stmt.ids, Stmt.idsAll_append, Stmt.idsAll]
    simp

theorem outline_closeAll (a : Analysis) : ∃ earlier later, (closeAll levels s).outline a [] =
    earlier ++ s.outline a (scopes levels s) ++ later := by
  induction levels generalizing s with
  | nil => exact ⟨[], [], by simp [closeAll, scopes]⟩
  | cons l outer ih =>
    obtain ⟨earlier, later, split⟩ := @ih (l.close s)
    obtain ⟨opening, inner⟩ : ∃ opening, (l.close s).outline a (scopes outer (l.close s)) =
        opening ++ Stmt.outlineAll a (scopes (l :: outer) s) (l.body s) := ⟨_, rfl⟩
    refine ⟨earlier ++ opening ++ Stmt.outlineAll a (scopes (l :: outer) s) l.before,
      Stmt.outlineAll a (scopes (l :: outer) s) l.after ++ later, ?_⟩
    rw [closeAll, split, inner, body, Stmt.outlineAll_middle]
    simp only [List.append_assoc]

theorem length_scopes : (scopes levels s).length = levels.length := by
  induction levels generalizing s with
  | nil => rfl
  | cons l outer ih => rw [scopes, List.length_cons, ih, List.length_cons]

end Level

namespace Analysis

variable {a : Analysis} {levels : List Level} {s : Stmt}

theorem resume_untouched :
    Untouched a (a.resume levels) (levels.flatMap fun l => Stmt.idsAll l.after) := by
  induction levels generalizing a with
  | nil => exact .refl
  | cons l outer ih =>
    have rest : Untouched a (a.checkAll true l.after).exit (Stmt.idsAll l.after) :=
      checkAll_untouched.keep rfl rfl
    exact rest.trans ih

theorem place_sameFiles {program : Program} {before after : List Stmt}
    (distinct : (Stmt.idsAll program.body).Nodup)
    (split : program.body = before ++ Level.closeAll levels s :: after) :
    s.ids.Nodup ∧ SameFiles (ofProgram program)
      (((empty.checkAll false before).within levels).check (inside false levels) s) s.ids := by
  obtain ⟨earlier, placed⟩ := @Level.closeAll_ids levels s
  rw [split, Stmt.idsAll_append, Stmt.idsAll, placed] at distinct
  have reached : ofProgram program = ((((empty.checkAll false before).within levels).check
      (inside false levels) s).resume levels).checkAll false after := by
    rw [ofProgram, split, checkAll_append, checkAll, check_closeAll]
  have later := (@resume_untouched
    (((empty.checkAll false before).within levels).check (inside false levels) s) levels).trans
      (@checkAll_untouched false after _)
  rw [← reached] at later
  have grouped : (Stmt.idsAll before ++ earlier ++ s.ids ++
      ((levels.flatMap fun l => Stmt.idsAll l.after) ++ Stmt.idsAll after)).Nodup := by
    simpa only [List.append_assoc] using distinct
  obtain ⟨first, -, apart⟩ := List.nodup_append.1 grouped
  refine ⟨(List.nodup_append.1 first).2.1, fun id listed => ?_⟩
  have unlisted : id ∉ (levels.flatMap fun l => Stmt.idsAll l.after) ++ Stmt.idsAll after :=
    fun again => apart id (List.mem_append_right _ listed) id again rfl
  obtain ⟨values, targets⟩ := later id unlisted
  exact ⟨values.symm, targets.symm⟩

end Analysis

-- The line for `x op= e` with the operands of `x op e`, where the old value of `x` has this type.
inductive CompoundText (x : String) (op : Arithmetic) (target : Tag) (l r : Target.Expr) :
    String → Prop where
  | rebound : CompoundText x op target l r
      (x ++ " = (" ++ l.print ++ " " ++ op.symbol ++ " " ++ r.print ++ ")")
  | inPlace (bare : l.print = x) (unshared : target ∈ Tag.unshared) :
      CompoundText x op target l r (x ++ " " ++ op.symbol ++ "= " ++ r.print)

theorem compound_filed {source : String} {program : Program} {analysis : Analysis}
    (checked : check source = .ok (program, analysis)) (accepted : analysis.accepted = true)
    {before after : List Stmt} {levels : List Level} {span nameSpan : Span} {e : Expr}
    (split : program.body =
      before ++ Level.closeAll levels (.assignment span name nameSpan (.compound op) e) :: after) :
    ∃ target operand whole, analysis.targets[e.id]? = some target ∧
      analysis.values[e.id]? = some operand ∧
      Value.applyBinary (.arithmetic op) target operand = .ok whole := by
  obtain ⟨-, passed, -⟩ := place_accepted checked accepted split
  obtain ⟨read, rfl⟩ := check_eq_ok.1 checked
  have distinct : (Stmt.idsAll program.body).Nodup := (ofSource_numbered read).imp Nat.ne_of_lt
  obtain ⟨own, same⟩ := Analysis.place_sameFiles distinct split
  obtain ⟨values, targets⟩ := same e.id e.id_mem_ids
  obtain ⟨symbol, -, ⟨plain, -⟩ | ⟨op', whole, compound, outcome, after⟩⟩ :=
    Analysis.checkAssignment_accepted (Analysis.within_accepted passed)
  · cases plain
  · cases compound
    rw [Analysis.check, after] at values targets
    refine ⟨symbol.value, _, whole, ?_, ?_, outcome⟩
    · rw [← targets]
      exact Std.TreeMap.getElem?_insert_self
    · rw [← values]
      exact Analysis.evaluate_noted own e.own_note

theorem Stmt.line_placed {analysis : Analysis} {program : Program} {before after : List Stmt}
    {levels : List Level} {s : Stmt} {line : Target.Stmt} (plain : s.defined = [])
    (lowered : ∀ enclosing, s.lower analysis enclosing = [line])
    (split : program.body = before ++ Level.closeAll levels s :: after) (width : Nat) :
    (∀ script : Script, script.analysis = analysis →
      (script.emit s).lines =
        script.lines ++ [indented script.width script.depth line.head]) ∧
    ∃ earlier later,
      (program.body.foldl Script.emit ((Script.start analysis).withWidth width)).lines =
        earlier ++ indented (max width 1) levels.length line.head :: later := by
  have simple : ∀ t ∈ [line], t.isSimple = true := lowered [] ▸ Stmt.lower_simple plain
  constructor
  · rintro script rfl
    rw [Script.emit, lowered, Target.Stmt.allLines_simple simple]
    rfl
  · obtain ⟨earlier, later, placed⟩ := @Level.outline_closeAll levels s analysis
    have lines : (program.body.foldl Script.emit ((Script.start analysis).withWidth width)).lines =
        (Stmt.outlineAll analysis [] program.body).map (Line.print (max width 1)) := by
      rw [Script.foldl_emit, ← Stmt.allLines_lowerAll]
      rfl
    rw [lines, split, Stmt.outlineAll_middle, placed, Stmt.outline_plain plain, lowered,
      Level.length_scopes]
    simp only [List.map_append, List.map_cons, List.append_assoc]
    rw [← List.append_assoc]
    exact ⟨_, _, rfl⟩

-- The line for a compound assignment of an accepted program has the operands of the operation that
-- it abbreviates, as they would be written with the types on file.
theorem compound_lines {source : String} {program : Program} {analysis : Analysis}
    (checked : check source = .ok (program, analysis)) (accepted : analysis.accepted = true)
    {before after : List Stmt} {levels : List Level} {span nameSpan : Span} {e : Expr}
    (split : program.body =
      before ++ Level.closeAll levels (.assignment span name nameSpan (.compound op) e) :: after)
    (width : Nat) :
    ∃ target operand whole l r text, analysis.targets[e.id]? = some target ∧
      analysis.values[e.id]? = some operand ∧
      Value.applyBinary (.arithmetic op) target operand = .ok whole ∧
      Target.binary (.arithmetic op) (some whole.tag) (some target.tag) (some operand.tag)
        (.name (spell name)) (e.lower analysis) = .binary (.arithmetic op) l r ∧
      CompoundText (spell name) op target.tag l r text ∧
      (∀ script : Script, script.analysis = analysis →
        (script.emit (.assignment span name nameSpan (.compound op) e)).lines =
          script.lines ++ [indented script.width script.depth text]) ∧
      ∃ earlier later,
        (program.body.foldl Script.emit ((Script.start analysis).withWidth width)).lines =
          earlier ++ indented (max width 1) levels.length text :: later := by
  obtain ⟨target, operand, whole, targeted, valued, outcome⟩ :=
    compound_filed checked accepted split
  obtain ⟨l, r, operands, form⟩ :=
    @compound_operands _ _ _ _ (spell name) (e.lower analysis) outcome
  have lowered : ∀ enclosing, (Stmt.assignment span name nameSpan (.compound op) e).lower analysis
      enclosing = [compound (spell name) op (some target.tag) (some operand.tag)
        (e.lower analysis)] := by
    intro enclosing
    rw [Stmt.lower, Analysis.targetTag?, Analysis.tag?, targeted, valued]
    rfl
  refine ⟨target, operand, whole, l, r, _, targeted, valued, outcome, operands, ?_,
    Stmt.line_placed rfl lowered split width⟩
  rcases form with form | ⟨bare, unshared, form⟩
  · rw [form]
    have opened : " = (" = " = " ++ "(" := rfl
    have text : (Target.Stmt.assign (spell name) (.binary (.arithmetic op) l r)).head =
        spell name ++ " = (" ++ l.print ++ " " ++ op.symbol ++ " " ++ r.print ++ ")" := by
      rw [opened]
      simp only [Target.Stmt.head, Target.Expr.print, Operator.symbol, String.append_assoc]
    rw [text]
    exact .rebound
  · rw [form]
    exact .inPlace (by rw [bare]; rfl) unshared

-- A function turns a number of the module into a text.
def joinedSource : String := "var n = 1; func f() \x7b n += \"a\"; \x7d"

-- Whether the body ends in such a function, and the number and the text are on file.
def joinsText (analysis : Analysis) : List Stmt → Bool
  | [_, .function _ _ _ _ [.assignment _ name _ (.compound .add) e]] =>
    decide (name = "n") && decide (analysis.targetTag? e.id = some .integer) &&
      decide (analysis.tag? e.id = some .text) &&
      decide ((e.lower analysis).print = stringLiteral "a")
  | _ => false

theorem of_joinsText {analysis : Analysis} {body : List Stmt}
    (holds : joinsText analysis body = true) :
    ∃ (before : List Stmt) (function : Level) (span nameSpan : Span) (e : Expr),
      body = before ++ [Level.closeAll [function]
        (.assignment span "n" nameSpan (.compound .add) e)] ∧
      analysis.targetTag? e.id = some .integer ∧ analysis.tag? e.id = some .text ∧
      (e.lower analysis).print = stringLiteral "a" := by
  unfold joinsText at holds
  split at holds
  · simp only [Bool.and_eq_true, decide_eq_true_eq] at holds
    obtain ⟨⟨⟨rfl, target⟩, operand⟩, printed⟩ := holds
    exact ⟨[_], ⟨_, _, _, _, [], []⟩, _, _, _, rfl, target, operand, printed⟩
  · cases holds

-- The number has to become a text first, so the line cannot change it in place.
theorem joinedSource_rebinds : ∃ program analysis, check joinedSource = .ok (program, analysis) ∧
    analysis.accepted = true ∧ ∃ earlier later,
      (program.body.foldl Script.emit ((Script.start analysis).withWidth 4)).lines =
        earlier ++ indented 4 1 "n = (str(n) + \"a\")" :: later := by
  have found : ((check joinedSource).toOption.any fun result =>
      result.2.accepted && joinsText result.2 result.1.body) = true := by decide +kernel
  obtain ⟨⟨program, analysis⟩, checked, holds⟩ := ok_of_any found
  obtain ⟨accepted, joins⟩ := Bool.and_eq_true_iff.1 holds
  obtain ⟨before, function, span, nameSpan, e, split, number, text, printed⟩ := of_joinsText joins
  obtain ⟨target, operand, whole, l, r, line, targeted, valued, outcome, operands, form, -,
    placed⟩ := compound_lines checked accepted split 4
  have targetTag : target.tag = .integer := by
    rw [Analysis.targetTag?, targeted] at number
    exact Option.some.inj number
  have operandTag : operand.tag = .text := by
    rw [Analysis.tag?, valued] at text
    exact Option.some.inj text
  have wholeTag : whole.tag = .text := by
    rw [Value.applyBinary_tag outcome, targetTag, operandTag]
    rfl
  rw [targetTag, operandTag, wholeTag] at operands
  cases operands
  refine ⟨program, analysis, checked, accepted, ?_⟩
  cases form with
  | rebound =>
    simp only [textOperand, textOf, printed] at placed
    exact placed
  | inPlace bare => exact absurd bare (by decide)

end Scriptlet
