import Scriptlet.Proofs.Grammar.Moved.Expression

namespace Scriptlet.Parse

-- Some token has been passed.
def Begun (s : ParseState) : Prop := s.cursor.previous ≠ none

-- Some token has been or can be passed, unless there is only the end mark.
def Ready (s : ParseState) : Prop :=
  s.cursor.previous = none → s.cursor.ahead = [] → s.cursor.kind = .eof

theorem Begun.ready {s : ParseState} (begun : Begun s) : Ready s := fun none => absurd none begun

theorem stable_begun : Stable Begun := by
  constructor
  · intro s begun
    unfold Begun Cursor.advance
    split
    · exact begun
    · exact Option.some_ne_none _
  · intro s begun
    exact begun

theorem Ready.advance {s : ParseState} (ready : Ready s) (more : s.cursor.kind ≠ .eof) :
    Begun { s with cursor := s.cursor.advance } := by
  unfold Begun Cursor.advance
  split
  · rename_i last
    exact fun none => more (ready none last)
  · exact Option.some_ne_none _

theorem stable_ready : Stable Ready := by
  constructor
  · intro s ready
    by_cases ends : s.cursor.kind = .eof
    · unfold Cursor.advance
      split
      · exact ready
      · exact fun none => absurd none (Option.some_ne_none _)
    · exact (ready.advance ends).ready
  · intro s ready
    exact ready

namespace Moves

variable {σ : Shift} {P : ParseState → Prop} {g : Grammar} {fuel : Nat}

-- A name is never the end mark, so a token has been passed after it.
theorem name {message : String} : Moves σ Ready Begun (Token.down σ.lines)
    (Parse.expectNamed .identifier message) (Parse.expectNamed .identifier message) := by
  refine ⟨(expectNamed stable_ready).run, ?_⟩
  intro s token t ready ran
  unfold Parse.expectNamed Parse.expectOr at ran
  rw [bind_run cursor_run] at ran
  split at ran
  · rename_i named
    cases ran
    exact ready.advance (by simp [named])
  · cases ran

theorem previousEnd {α : Type} {Q : ParseState → Prop} {f : α → α} {h k : Cursor → Parse α}
    (next : ∀ c : Cursor, (σ.cursor c).previousEnd = c.previousEnd.down σ.lines →
      Moves σ Begun Q f (h c) (k (σ.cursor c))) :
    Moves σ Begun Q f (Parse.cursor >>= h) (Parse.cursor >>= k) := by
  have known : ∀ s : ParseState, Begun s →
      (σ.cursor s.cursor).previousEnd = s.cursor.previousEnd.down σ.lines := by
    intro s begun
    obtain ⟨position, found⟩ := Option.ne_none_iff_exists'.1 begun
    simp [Cursor.previousEnd, Shift.cursor, found]
  constructor
  · intro s begun
    exact (next s.cursor (known s begun)).run begun
  · intro s a t begun ran
    exact (next s.cursor (known s begun)).keeps begun ran

theorem initializer (stable : Stable P) : Moves σ P P (Option.map (Expr.moved σ.lines σ.ids))
    (initializer g fuel) (initializer g fuel) := by
  refine (Moves.accept stable).bind fun assigned => ?_
  cases assigned with
  | false => exact .pure
  | true =>
    simp only [id, reduceIte]
    refine (ExpressionMoves.all stable fuel).expression _ |>.bind fun value => .pure

theorem declarators : Moves σ Ready Ready (List.map (Declarator.moved σ.lines σ.ids))
    (declarators g fuel) (declarators g fuel) := by
  induction fuel with
  | zero => exact .exhausted
  | succ fuel ih =>
    rw [declarators_succ]
    refine name.bind fun token => (initializer stable_begun).bind fun value =>
      previousEnd fun c moved => (accept stable_begun).bind fun more => ?_
    rw [moved]
    cases more with
    | false => exact pure.after Begun.ready
    | true => exact (ih.before Begun.ready).bind fun others => .pure

theorem parameters (stable : Stable P) : Moves σ P P (List.map (Parameter.moved σ.lines))
    (parameters fuel) (parameters fuel) := by
  induction fuel with
  | zero => exact .exhausted
  | succ fuel ih =>
    refine (expectNamed stable).bind fun token => (accept stable).bind fun more => ?_
    cases more with
    | false => exact .pure
    | true => exact ih.bind fun others => .pure

theorem parametersUntil (stable : Stable P) {close : TokenKind} :
    Moves σ P P (List.map (Parameter.moved σ.lines)) (parametersUntil fuel close)
      (parametersUntil fuel close) := by
  refine Moves.kind.bind fun kind => ?_
  change Moves _ _ _ _ _ (if kind = close then _ else _)
  split
  · exact .pure
  · exact parameters stable

theorem terminated (stable : Stable P) :
    Moves σ P P (Prod.map (Expr.moved σ.lines σ.ids) (Position.down σ.lines))
      (terminated g fuel) (terminated g fuel) :=
  (ExpressionMoves.all stable fuel).expression _ |>.bind fun _ =>
    (expect stable).bind fun _ => .pure

theorem declaration : Moves σ Ready Ready (Stmt.moved σ.lines σ.ids) (declaration g fuel)
    (declaration g fuel) :=
  (advance stable_ready).bind fun _ => declarators.bind fun _ =>
    (expect stable_ready).bind fun _ => .pure

theorem assignment (stable : Stable P) : Moves σ P P (Stmt.moved σ.lines σ.ids)
    (assignment g fuel) (assignment g fuel) := by
  refine (expect stable).bind fun name => kind.bind fun kind => ?_
  have same : assignOp? (id kind) = assignOp? kind := rfl
  rw [same]
  cases assignOp? kind with
  | none => exact .failWith
  | some op => exact (advance stable).bind fun _ => (terminated stable).bind fun value => .pure

theorem output (stable : Stable P) : Moves σ P P (Stmt.moved σ.lines σ.ids)
    (output g fuel) (output g fuel) :=
  (advance stable).bind fun _ => (terminated stable).bind fun _ => .pure

theorem throwing (stable : Stable P) : Moves σ P P (Stmt.moved σ.lines σ.ids)
    (throwing g fuel) (throwing g fuel) :=
  (advance stable).bind fun _ => (terminated stable).bind fun _ => .pure

theorem bare (stable : Stable P) : Moves σ P P (Stmt.moved σ.lines σ.ids)
    (bare g fuel) (bare g fuel) := by
  refine (terminated stable).bind fun ended => ?_
  obtain ⟨value, stop⟩ := ended
  dsimp only [Prod.map]
  rw [Expr.moved_span]
  exact .pure

end Moves

structure StatementMoves (g : Grammar) (σ : Shift) (fuel : Nat) : Prop where
  statement : Moves σ Ready Ready (Stmt.moved σ.lines σ.ids) (statement g fuel)
    (statement g fuel)
  statementBy : ∀ rule, Moves σ Ready Ready (Stmt.moved σ.lines σ.ids) (statementBy g fuel rule)
    (statementBy g fuel rule)
  block : Moves σ Ready Ready (Stmt.movedAll σ.lines σ.ids) (block g fuel) (block g fuel)

namespace StatementMoves

variable {g : Grammar} {σ : Shift} {fuel : Nat}

theorem statement_succ (moves : StatementMoves g σ fuel) :
    Moves σ Ready Ready (Stmt.moved σ.lines σ.ids) (Parse.statement g (fuel + 1))
      (Parse.statement g (fuel + 1)) := by
  refine Moves.cursor.bind fun c => ?_
  have same : g.statement (σ.cursor c).kind = g.statement c.kind := rfl
  have starts : startsAssignment (σ.cursor c) = startsAssignment c := by
    unfold startsAssignment
    rw [Shift.cursor_peek]
    rfl
  rw [same, starts]
  cases g.statement c.kind with
  | some rule => exact moves.statementBy rule
  | none =>
    dsimp only
    split
    · exact .assignment stable_ready
    · exact .bare stable_ready

theorem statementBy_succ (moves : StatementMoves g σ fuel) (rule : StatementRule) :
    Moves σ Ready Ready (Stmt.moved σ.lines σ.ids) (Parse.statementBy g (fuel + 1) rule)
      (Parse.statementBy g (fuel + 1) rule) := by
  cases rule with
  | any => exact moves.statement
  | declaration => exact .declaration
  | assignment => exact .assignment stable_ready
  | function =>
    simp only [Parse.statementBy]
    exact (Moves.advance stable_ready).bind fun start => (Moves.expectNamed stable_ready).bind
      fun name => (Moves.expect stable_ready).bind fun _ => (Moves.parametersUntil stable_ready).bind
      fun names => (Moves.expect stable_ready).bind fun _ => (Moves.expect stable_ready).bind
      fun _ => moves.block.bind fun body => (Moves.expect stable_ready).bind fun stop => .pure
  | output => exact .output stable_ready
  | throw => exact .throwing stable_ready

theorem block_succ (moves : StatementMoves g σ fuel) :
    Moves σ Ready Ready (Stmt.movedAll σ.lines σ.ids) (Parse.block g (fuel + 1))
      (Parse.block g (fuel + 1)) := by
  simp only [Parse.block]
  refine Moves.kind.bind fun kind => ?_
  dsimp only [id]
  split
  · exact .pure
  · exact .failWith
  · exact moves.statement.bind fun first => moves.block.bind fun others => .pure

theorem all (fuel : Nat) : StatementMoves g σ fuel := by
  induction fuel with
  | zero => constructor <;> intros <;> exact .exhausted
  | succ fuel moves => exact ⟨statement_succ moves, statementBy_succ moves, block_succ moves⟩

end StatementMoves

theorem statements_moves {g : Grammar} {σ : Shift} {fuel : Nat} :
    Moves σ Ready Ready (Stmt.movedAll σ.lines σ.ids) (statements g fuel) (statements g fuel) := by
  induction fuel with
  | zero => exact .exhausted
  | succ fuel ih =>
    refine Moves.cursor.bind fun c => ?_
    change Moves _ _ _ _ _ (if c.atEnd = true then _ else _)
    split
    · exact .pure
    · exact (StatementMoves.all fuel).statement.bind fun first => ih.bind fun others => .pure

end Scriptlet.Parse
