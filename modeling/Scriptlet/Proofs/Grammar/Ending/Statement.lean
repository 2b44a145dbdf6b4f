import Scriptlet.Proofs.Grammar.Ending.Expression
import Scriptlet.Proofs.Grammar.Sound.Statement

namespace Scriptlet.Parse

open Grammar (standard)

variable {k need : Nat} {s : ParseState}

-- The names of a declaration.
def declaratorLoop : Loop Unit (List Declarator) :=
  .separated
    (fun fuel => do
      let name ← expectNamed .identifier "expected identifier during variable declaration"
      let value ← initializer standard fuel
      let c ← cursor
      return ⟨name.value, value, ⟨name.span.start, c.previousEnd⟩⟩)
    (declarators standard) rfl fun fuel => by simp only [declarators_succ, bind_assoc, pure_bind]

def parameterLoop : Loop Unit (List Parameter) :=
  .separated
    (fun _ => do
      let name ← expectNamed .identifier "expected parameter name"
      return ⟨name.value, name.span⟩)
    parameters rfl fun fuel => by simp only [parameters, bind_assoc, pure_bind]

-- The statements of a function.
def blockLoop : Loop Unit (List Stmt) :=
  .repeated
    (do
      match ← kind with
      | .closeCurly => return false
      | .eof => failWith "expected `\x7d` to close the function body"
      | _ => return true)
    (statement standard) (block standard) rfl fun fuel => by
      rw [block, bind_assoc]
      congr
      funext k
      cases k <;> rfl

def programLoop : Loop Unit (List Stmt) :=
  .repeated (do return !(← cursor).atEnd) (statement standard) (statements standard) rfl
    fun fuel => by
      simp only [statements, bind_assoc, pure_bind]
      congr
      funext c
      cases c.atEnd <;> rfl

theorem initializer_ends (within : Within k s) :
    Ends (initializer standard) (4 * k) s fun _ _ => True := by
  refine (accept_ends within (by decide)).bind_within within fun taken s' within => ?_
  cases taken with
  | false => exact .of_pure trivial
  | true =>
    simp only [reduceIte, map_eq_pure_bind]
    exact (expression_ends k s' within .default).bind fun _ _ _ _ => .of_pure trivial

theorem declaratorLoop_advances (within : Within k s) : declaratorLoop.Advances (4 * k) s := by
  refine Loop.separated_advances within ?_
  refine (expectOr_ends within (by decide)).bind_advanced within fun name s' within => ?_
  refine ((initializer_ends within).weaken (by omega)).bind fun value s' _ _ => ?_
  exact .look cursor_run (.of_pure trivial)

theorem parameterLoop_advances (within : Within k s) : parameterLoop.Advances need s := by
  refine Loop.separated_advances within ?_
  refine (expectOr_ends within (by decide)).bind_advanced within fun _ _ _ => ?_
  exact .of_pure trivial

theorem terminated_ends (within : Within k s) :
    Ends (terminated standard) (4 * k) s fun _ s' => Advanced s s' := by
  refine (expression_ends k s within .default).bind_advanced within fun value s' within => ?_
  exact (expectOr_ends within (by decide)).bind fun _ _ _ _ => .of_pure trivial

theorem declaration_ends (within : Within (k + 1) s) (more : s.cursor.kind ≠ .eof) :
    Ends (declaration standard) (4 * k + 2) s fun _ s' => Advanced s s' := by
  refine (advance_ends within more).bind_advanced within fun first s' within => ?_
  have named := declaratorLoop.ends (by omega) (fun _ _ _ => declaratorLoop_advances) () within
  refine (named.weaken (Nat.le_succ _)).bind_within within fun names s' within => ?_
  exact (expectOr_ends within (by decide)).bind fun _ _ _ _ => .of_pure trivial

theorem assignment_ends (within : Within k s) :
    Ends (assignment standard) (4 * k) s fun _ s' => Advanced s s' := by
  refine (expectOr_ends within (by decide)).bind_advanced within fun name s' within => ?_
  refine .look kind_run ?_
  cases found : assignOp? s'.cursor.kind with
  | none => exact .of_fault rfl
  | some op =>
    have more := NamesAssignment.ne_eof (assignOp?_named found)
    refine (advance_ends within more).bind_within within fun _ s' within => ?_
    exact ((terminated_ends within).weaken (by omega)).bind fun _ _ _ _ => .of_pure trivial

theorem output_ends (within : Within (k + 1) s) (more : s.cursor.kind ≠ .eof) :
    Ends (output standard) (4 * k) s fun _ s' => Advanced s s' := by
  refine (advance_ends within more).bind_advanced within fun first s' within => ?_
  exact (terminated_ends within).bind fun _ _ _ _ => .of_pure trivial

theorem throwing_ends (within : Within (k + 1) s) (more : s.cursor.kind ≠ .eof) :
    Ends (throwing standard) (4 * k) s fun _ s' => Advanced s s' := by
  refine (advance_ends within more).bind_advanced within fun first s' within => ?_
  exact (terminated_ends within).bind fun _ _ _ _ => .of_pure trivial

theorem bare_ends (within : Within k s) :
    Ends (bare standard) (4 * k) s fun _ s' => Advanced s s' :=
  (terminated_ends within).bind_advanced within fun _ _ _ => .of_pure trivial

theorem parametersUntil_ends (close : TokenKind) (within : Within k s) :
    Ends (fun fuel => parametersUntil fuel close) (k + 1) s fun _ _ => True := by
  refine .look kind_run ?_
  by_cases closes : s.cursor.kind = close
  · simp only [closes, reduceIte]
    exact .of_pure trivial
  · simp only [closes, reduceIte]
    exact parameterLoop.ends Nat.lt_succ_self (fun _ _ _ => parameterLoop_advances) () within

-- Statements come to an end when at most `k` tokens are left.
def StatementsEnd (k : Nat) : Prop :=
  ∀ s, Within k s → Ends (statement standard) (4 * k + 1) s fun _ s' => Advanced s s'

theorem blockLoop_advances (ends : StatementsEnd k) (within : Within k s) :
    blockLoop.Advances (4 * k + 1) s := by
  refine Loop.repeated_advances (.look kind_run ?_) (ends s within)
  cases s.cursor.kind with
  | eof => exact .of_fault rfl
  | _ => exact .of_pure rfl

theorem programLoop_advances (ends : StatementsEnd k) (within : Within k s) :
    programLoop.Advances (4 * k + 1) s :=
  Loop.repeated_advances (.look cursor_run (.of_pure rfl)) (ends s within)

theorem statementBy_ends (ends : ∀ j ≤ k, StatementsEnd j) (within : Within (k + 1) s)
    {rule : StatementRule} (found : standard.statement s.cursor.kind = some rule) :
    Ends (fun fuel => statementBy standard fuel rule) (4 * k + 4) s fun _ s' => Advanced s s' := by
  have more := statement_ne_eof found
  generalize s.cursor.kind = kind at found
  cases startsBy_of_statement found with
  | declaration => exact .spend rfl (declaration_ends within more) (by omega)
  | output => exact .spend rfl (output_ends within more) (by omega)
  | throw => exact .spend rfl (throwing_ends within more) (by omega)
  | function =>
    refine .spend rfl ?_ (Nat.lt_succ_self _)
    refine (advance_ends within more).bind_advanced within fun first s' within => ?_
    refine (expectOr_ends within (by decide)).bind_within within fun name s' within => ?_
    refine (expectOr_ends within (by decide)).bind_within within fun _ s' within => ?_
    have named := (parametersUntil_ends .closeParen within).weaken (by omega : k + 1 ≤ 4 * k + 3)
    refine named.bind_within within fun names s' within => ?_
    refine (expectOr_ends within (by decide)).bind_within within fun _ s' within => ?_
    refine (expectOr_ends within (by decide)).bind_within within fun _ s' within => ?_
    have read := blockLoop.ends (by omega) (fun j le _ => blockLoop_advances (ends j le)) () within
    refine (read.weaken (Nat.le_succ _)).bind_within within fun body s' within => ?_
    exact (expectOr_ends within (by decide)).bind fun _ _ _ _ => .of_pure trivial

theorem statement_ends (k : Nat) : StatementsEnd k := by
  induction k using Nat.strongRecOn with
  | ind k ih =>
    intro s within
    obtain ⟨k, rfl⟩ := Nat.exists_eq_add_one.2 within.pos
    refine .spend rfl ?_ (Nat.lt_succ_self _)
    refine .look cursor_run ?_
    cases found : standard.statement s.cursor.kind with
    | some rule => exact statementBy_ends (fun j le => ih j (Nat.lt_succ_of_le le)) within found
    | none =>
      cases startsAssignment s.cursor with
      | true => exact assignment_ends within
      | false => exact bare_ends within

-- What is read from this state on comes to an end: an expression or a statement that is read has
-- passed a token, and no loop goes round again without having passed one.
structure EndsFrom (need : Nat) (s : ParseState) : Prop where
  expression : ∀ least,
    Ends (fun fuel => expression standard fuel least) need s fun _ s' => Advanced s s'
  statement : Ends (statement standard) need s fun _ s' => Advanced s s'
  joined : ∀ least, (joinedLoop least).Advances need s
  items : itemLoop.Advances need s
  declarators : declaratorLoop.Advances need s
  parameters : parameterLoop.Advances need s
  block : blockLoop.Advances need s
  program : programLoop.Advances need s

theorem endsFrom_budget (closed : Closed s.tokens) : EndsFrom (budget s.cursor) s := by
  have within : Within (s.cursor.ahead.length + 1) s := ⟨closed, Nat.le_refl _⟩
  have enough : 4 * (s.cursor.ahead.length + 1) + 1 ≤ budget s.cursor := by
    unfold budget
    omega
  exact
    { expression := fun least => (expression_ends _ s within least).weaken (by omega)
      statement := (statement_ends _ s within).weaken enough
      joined := fun least left =>
        (joinedLoop_advances (fun j _ => expression_ends j) within left).weaken (by omega)
      items := fun _ => (itemLoop_advances (expression_ends _) within ()).weaken (by omega)
      declarators := fun _ => (declaratorLoop_advances within ()).weaken (by omega)
      parameters := parameterLoop_advances within
      block := fun _ => (blockLoop_advances (statement_ends _) within ()).weaken enough
      program := fun _ => (programLoop_advances (statement_ends _) within ()).weaken enough }

theorem statements_ends (closed : Closed s.tokens) :
    Ends (statements standard) (budget s.cursor) s fun _ _ => True := by
  have within : Within (s.cursor.ahead.length + 1) s := ⟨closed, Nat.le_refl _⟩
  have read := programLoop.ends (by omega)
    (fun j _ _ => programLoop_advances (statement_ends j)) () within
  refine read.weaken ?_
  unfold budget
  omega

theorem program_ends (closed : Closed s.tokens) :
    Ends (fun _ => program) need s fun _ _ => True := by
  refine .look cursor_run ?_
  have budgeted : Ends (fun _ => withBudget (statements standard)) need s fun _ _ => True :=
    .look cursor_run ((statements_ends closed).fix (Nat.le_refl _))
  exact budgeted.bind fun body s' _ _ => .look cursor_run (.of_pure trivial)

theorem start_tokens (tokens : List Token) : (start tokens).tokens = Cursor.closed tokens := by
  have some := (Cursor.closed_closed tokens).ne_nil
  rw [start_eq_place]
  cases closed : Cursor.closed tokens with
  | nil => exact absurd closed some
  | cons t rest => rfl

-- The budget never runs out, a larger one changes nothing, and wherever in the list the cursor
-- may stand, nothing is read without passing a token.
theorem reading_ends (tokens : List Token) :
    Finished (program.run (start tokens)) ∧
      Leads (start tokens) (fun _ _ => True) (program.run (start tokens)) ∧
      Ends (statements standard) (budget (start tokens).cursor) (start tokens) (fun _ _ => True) ∧
      ∀ s : ParseState, s.tokens <:+ Cursor.closed tokens → EndsFrom (budget s.cursor) s := by
  have closed : Closed (start tokens).tokens := start_tokens tokens ▸ Cursor.closed_closed tokens
  have ends := @program_ends 0 _ closed
  obtain ⟨result, finished, same⟩ := ends.decided
  refine ⟨same 0 (Nat.le_refl 0) ▸ finished, ends.leads 0, statements_ends closed, ?_⟩
  intro s onward
  exact endsFrom_budget ((Cursor.closed_closed tokens).suffix onward (List.cons_ne_nil _ _))

-- A list with an end mark in the middle and none at its end.
def strayTokens : List Token := [.eof .null, ⟨.plus, "+", ⟨.null, .null⟩⟩]

-- The state behind the end mark.
def strayState : ParseState := ⟨⟨none, ⟨.plus, "+", ⟨.null, .null⟩⟩, [.eof .null]⟩, 0⟩

theorem strayTokens_end :
    Finished (program.run (start strayTokens)) ∧
      strayState.tokens <:+ Cursor.closed strayTokens ∧
      EndsFrom (budget strayState.cursor) strayState :=
  have onward : strayState.tokens <:+ Cursor.closed strayTokens := List.suffix_cons _ _
  ⟨(reading_ends strayTokens).1, onward, (reading_ends strayTokens).2.2.2 strayState onward⟩

end Scriptlet.Parse
