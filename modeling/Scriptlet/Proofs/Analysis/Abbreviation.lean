import Scriptlet.Analysis.Check

/-!
Compound assignments as abbreviations. Where a variable may change, `x op= e` leaves the same
symbol table as `x = x op e` and complains in the same words. The places may differ: an operation
that fails is reported at the operand in the one and at the whole operation in the other.
-/

namespace Scriptlet

-- What a diagnostic says, without the place that it points to.
def Diagnostic.wording (d : Diagnostic) : DiagnosticKind × String := (d.kind, d.message)

namespace Analysis

variable {a : Analysis} {name : String} {symbol : Symbol}

theorem combine_place (op : Arithmetic) (previous value : Value) (position position' : Position) :
    (combine op previous value position).1 = (combine op previous value position').1 ∧
      (combine op previous value position).2.map Diagnostic.wording =
        (combine op previous value position').2.map Diagnostic.wording := by
  unfold combine
  cases Value.applyBinary (.arithmetic op) previous value with
  | ok combined => exact ⟨rfl, rfl⟩
  | error failure => exact ⟨rfl, rfl⟩

section Changeable

variable (found : a.symbols.lookup? name = some symbol)
include found

theorem reduce_operation (node inner : Node) (op : Arithmetic) (e : Expr) :
    let whole := (Expr.binary node (.arithmetic op) (.identifier inner name) e).reduce a.symbols
    let outcome := combine op symbol.value (e.reduce a.symbols).value node.span.start
    whole.value = outcome.1 ∧
      whole.diagnostics = (e.reduce a.symbols).diagnostics ++ outcome.2 := by
  intro whole outcome
  have reduced : whole = .ofOutcome node [.ofParts inner [] symbol.value [], e.reduce a.symbols]
      (Value.applyBinary (.arithmetic op) symbol.value (e.reduce a.symbols).value) := by
    simp only [whole, Expr.reduce, found]
    rfl
  rw [reduced]
  unfold outcome combine
  cases Value.applyBinary (.arithmetic op) symbol.value (e.reduce a.symbols).value with
  | ok combined => simp [Reduction.ofOutcome, Reduction.ofParts]
  | error failure => simp [Reduction.ofOutcome, Reduction.ofParts]

variable (changeable : symbol.fixed = false)
include changeable

theorem checkAssignment_compound (position : Position) (op : Arithmetic) (e : Expr) :
    let after := a.checkAssignment name position (.compound op) e
    let outcome := combine op symbol.value (e.reduce a.symbols).value e.span.start
    after.symbols = a.symbols.assign name outcome.1 ∧
      after.diagnostics = a.diagnostics ++ ((e.reduce a.symbols).diagnostics ++ outcome.2) := by
  simp [checkAssignment, found, changeable, assign, evaluate, absorb]

theorem checkAssignment_operation (position : Position) (node inner : Node) (op : Arithmetic)
    (e : Expr) :
    let after := a.checkAssignment name position .assign
      (.binary node (.arithmetic op) (.identifier inner name) e)
    let outcome := combine op symbol.value (e.reduce a.symbols).value node.span.start
    after.symbols = a.symbols.assign name outcome.1 ∧
      after.diagnostics = a.diagnostics ++ ((e.reduce a.symbols).diagnostics ++ outcome.2) := by
  obtain ⟨value, reported⟩ := reduce_operation found node inner op e
  dsimp only
  rw [← value, ← reported]
  simp [checkAssignment, found, changeable, assign, evaluate, absorb]

end Changeable

-- Writing out the operation of a compound assignment changes neither the table nor the wording of
-- what is reported, nor its order.
theorem compound_abbreviates (found : a.symbols.lookup? name = some symbol)
    (changeable : symbol.fixed = false) (inFunction : Bool) (op : Arithmetic) (e : Expr)
    (span nameSpan span' nameSpan' : Span) (node inner : Node) :
    let short := a.check inFunction (.assignment span name nameSpan (.compound op) e)
    let long := a.check inFunction (.assignment span' name nameSpan' .assign
      (.binary node (.arithmetic op) (.identifier inner name) e))
    short.symbols = long.symbols ∧
      ∃ flaws flaws', short.diagnostics = a.diagnostics ++ flaws ∧
        long.diagnostics = a.diagnostics ++ flaws' ∧
        flaws.map Diagnostic.wording = flaws'.map Diagnostic.wording := by
  intro short long
  obtain ⟨table, reported⟩ := checkAssignment_compound found changeable nameSpan.start op e
  obtain ⟨table', reported'⟩ :=
    checkAssignment_operation found changeable nameSpan'.start node inner op e
  obtain ⟨same, worded⟩ := combine_place op symbol.value (e.reduce a.symbols).value e.span.start
    node.span.start
  refine ⟨?_, _, _, reported, reported', ?_⟩
  · rw [← same] at table'
    exact table.trans table'.symm
  · rw [List.map_append, List.map_append, worded]

-- A state in which `x` is a text.
def textState : Analysis :=
  empty.declare "x" false ⟨1, 5⟩ (.variableRepeated false "x" ⟨1, 5⟩) (.text "a")

-- A list with an unknown name in it.
def flawedList : Expr := .list ⟨1, ⟨⟨2, 6⟩, ⟨2, 9⟩⟩⟩ [.identifier ⟨0, ⟨⟨2, 7⟩, ⟨2, 8⟩⟩⟩ "y"]

theorem flawedList_subtracted : ∃ symbol, textState.symbols.lookup? "x" = some symbol ∧
    symbol.fixed = false ∧
    let node : Node := ⟨3, ⟨⟨2, 1⟩, ⟨2, 9⟩⟩⟩
    let short := textState.check false
      (.assignment default "x" default (.compound .subtract) flawedList)
    let long := textState.check false (.assignment default "x" default .assign
      (.binary node (.arithmetic .subtract) (.identifier ⟨2, default⟩ "x") flawedList))
    short.symbols = long.symbols ∧ short.diagnostics ≠ long.diagnostics ∧
      short.diagnostics.map Diagnostic.wording = long.diagnostics.map Diagnostic.wording := by
  have found : textState.symbols.lookup? "x" = some ⟨"x", false, ⟨1, 5⟩, .text "a"⟩ := rfl
  refine ⟨_, found, rfl, ?_⟩
  intro node short long
  obtain ⟨symbols, flaws, flaws', reported, reported', worded⟩ :=
    compound_abbreviates found rfl false .subtract flawedList default default default default node
      ⟨2, default⟩
  refine ⟨symbols, by decide, ?_⟩
  rw [reported, reported', List.map_append, List.map_append, worded]

end Analysis

end Scriptlet
