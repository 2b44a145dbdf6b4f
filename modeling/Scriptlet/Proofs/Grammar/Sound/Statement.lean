import Scriptlet.Proofs.Grammar.Sound.Expression

namespace Scriptlet.Parse

open Grammar (standard)

variable {p : Option Position} {t : Token} {tokens : List Token} {n : NodeId} {s : ParseState}
  {fuel : Nat}

theorem terminated_reads {e : Expr} {stop : Position} (closed : Closed tokens)
    (ran : (terminated standard fuel).run (place p tokens n) = .ok (e, stop) s) :
    ∃ (ts : List Token) (ender : Token) (rest : List Token) (m : NodeId),
      Passed p tokens (ts ++ [ender]) s rest m ∧ Reads .disjunction n ts e m ∧
      ender.kind = .semicolon ∧ stop = ender.span.stop := by
  unfold terminated at ran
  obtain ⟨value, _, read, ran⟩ := bind_ok.1 ran
  obtain ⟨ts, rest, m, ⟨rfl, restClosed, rfl⟩, reads, -⟩ :=
    (reads_within fuel).expression (by decide) closed read
  obtain ⟨ender, _, expected, ran⟩ := bind_ok.1 ran
  obtain ⟨last, rfl, ends, rfl, lastClosed⟩ := expectOr_ok restClosed (by decide) expected
  cases ran
  exact ⟨ts, ender, last, m, ⟨by simp, lastClosed, by simp⟩, reads, ends, rfl⟩

theorem lastStop_eq_getLast (p : Option Position) (t : Token) (ts : List Token) :
    lastStop p (t :: ts) = some ((t :: ts).getLast (by simp)).span.stop := by
  induction ts generalizing p t with
  | nil => rfl
  | cons u us ih => exact ih (some t.span.stop) u

-- Between a declarator and what follows, the cursor remembers where the declarator ends.
theorem previousEnd_place (t : Token) (ts rest : List Token) (n : NodeId) :
    ⟨t.span.start, (place (lastStop p (t :: ts)) rest n).cursor.previousEnd⟩ = t.hull ts := by
  rw [lastStop_eq_getLast]
  cases rest <;> rfl

theorem initializer_reads {name : Token} {value : Option Expr} (named : name.kind = .identifier)
    (closed : Closed tokens)
    (ran : (initializer standard fuel).run (place (some name.span.stop) tokens n) = .ok value s) :
    ∃ ts rest m, Passed (some name.span.stop) tokens ts s rest m ∧
      ReadsDeclarator n (name :: ts) ⟨name.value, value, name.hull ts⟩ m := by
  obtain ⟨taken, _, accepted, ran⟩ := bind_ok.1 ran
  rcases accept_ok closed (by decide) accepted with
    ⟨rfl, sign, rest, rfl, assigns, rfl, valueClosed⟩ | ⟨rfl, rfl⟩
  · simp only [reduceIte, map_eq_pure_bind] at ran
    obtain ⟨e, _, read, ran⟩ := bind_ok.1 ran
    obtain ⟨ts, rest, m, ⟨rfl, restClosed, rfl⟩, reads, -⟩ :=
      (reads_within fuel).expression (by decide) valueClosed read
    cases ran
    exact ⟨sign :: ts, rest, m, ⟨rfl, restClosed, rfl⟩, .initialized named assigns reads⟩
  · cases ran
    exact ⟨[], tokens, n, ⟨rfl, closed, rfl⟩, .bare named⟩

theorem declarators_reads {ds : List Declarator} (closed : Closed tokens)
    (ran : (declarators standard fuel).run (place p tokens n) = .ok ds s) :
    ∃ ts rest m, Passed p tokens ts s rest m ∧ ReadsDeclarators n ts ds m := by
  induction fuel generalizing p tokens n ds s with
  | zero => simp [declarators] at ran
  | succ fuel ih =>
    rw [declarators_succ] at ran
    obtain ⟨name, _, expected, ran⟩ := bind_ok.1 ran
    obtain ⟨tokens, rfl, named, rfl, valueClosed⟩ := expectOr_ok closed (by decide) expected
    obtain ⟨value, _, read, ran⟩ := bind_ok.1 ran
    obtain ⟨ts, rest, m, ⟨rfl, restClosed, rfl⟩, reads⟩ := initializer_reads named valueClosed read
    rw [bind_run cursor_run, ← lastStop_cons p name ts] at ran
    rw [previousEnd_place] at ran
    obtain ⟨taken, _, accepted, ran⟩ := bind_ok.1 ran
    rcases accept_ok restClosed (by decide) accepted with
      ⟨rfl, comma, tokens, rfl, separated, rfl, more⟩ | ⟨rfl, rfl⟩
    · obtain ⟨others, _, read, ran⟩ := bind_ok.1 ran
      obtain ⟨us, last, k, ⟨rfl, lastClosed, rfl⟩, readsOthers⟩ := ih more read
      cases ran
      refine ⟨name :: ts ++ comma :: us, last, k, ⟨by simp, lastClosed, by simp⟩, ?_⟩
      exact .more reads separated readsOthers
    · cases ran
      exact ⟨name :: ts, rest, m, ⟨rfl, restClosed, rfl⟩, .last reads⟩

theorem isFixed_of_names {k : TokenKind} {fixed : Bool} (starts : k.NamesDeclaration fixed) :
    decide (k = .fixedKeyword) = fixed := by
  cases starts <;> rfl

theorem declaration_reads {stmt : Stmt} {fixed : Bool} (starts : t.kind.NamesDeclaration fixed)
    (closed : Closed (t :: tokens))
    (ran : (declaration standard fuel).run (place p (t :: tokens) n) = .ok stmt s) :
    ∃ ts rest m, Passed p (t :: tokens) ts s rest m ∧ ReadsStatement n ts stmt m := by
  unfold declaration at ran
  obtain ⟨word, _, advanced, ran⟩ := bind_ok.1 ran
  have more : t.kind ≠ .eof := by
    intro ended
    rw [ended] at starts
    cases starts
  obtain ⟨rfl, rfl, namesClosed⟩ := advance_ok closed more advanced
  obtain ⟨ds, _, read, ran⟩ := bind_ok.1 ran
  obtain ⟨ts, rest, m, ⟨rfl, restClosed, rfl⟩, reads⟩ := declarators_reads namesClosed read
  obtain ⟨ender, _, expected, ran⟩ := bind_ok.1 ran
  obtain ⟨last, rfl, ends, rfl, lastClosed⟩ := expectOr_ok restClosed (by decide) expected
  cases ran
  rw [isFixed_of_names starts]
  refine ⟨word :: ts ++ [ender], last, m, ⟨by simp, lastClosed, by simp⟩, ?_⟩
  exact .declaration starts reads ends

theorem assignOp?_named {k : TokenKind} {op : AssignOp} (found : assignOp? k = some op) :
    k.NamesAssignment op := by
  unfold assignOp? at found
  split at found <;> cases found <;> constructor

theorem NamesAssignment.ne_eof {k : TokenKind} {op : AssignOp} (named : k.NamesAssignment op) :
    k ≠ .eof := by
  cases named <;> decide

theorem assignment_reads {stmt : Stmt} (closed : Closed tokens)
    (ran : (assignment standard fuel).run (place p tokens n) = .ok stmt s) :
    ∃ ts rest m, Passed p tokens ts s rest m ∧ ReadsStatement n ts stmt m := by
  unfold assignment at ran
  obtain ⟨name, _, expected, ran⟩ := bind_ok.1 ran
  obtain ⟨tokens, rfl, named, rfl, signClosed⟩ := expectOr_ok closed (by decide) expected
  match tokens, signClosed.ne_nil with
  | sign :: tokens, _ =>
    rw [bind_run kind_run, place_kind] at ran
    split at ran
    · simp at ran
    · rename_i op found
      have assigns := assignOp?_named found
      obtain ⟨_, _, advanced, ran⟩ := bind_ok.1 ran
      obtain ⟨rfl, rfl, valueClosed⟩ :=
        advance_ok signClosed (NamesAssignment.ne_eof assigns) advanced
      obtain ⟨⟨e, stop⟩, _, read, ran⟩ := bind_ok.1 ran
      obtain ⟨ts, ender, rest, m, ⟨rfl, restClosed, rfl⟩, reads, ends, rfl⟩ :=
        terminated_reads valueClosed read
      cases ran
      exact ⟨name :: _ :: ts ++ [ender], rest, m, ⟨by simp, restClosed, by simp⟩,
        .assignment named assigns reads ends⟩

theorem output_reads {stmt : Stmt} (starts : t.kind = .showKeyword) (closed : Closed (t :: tokens))
    (ran : (output standard fuel).run (place p (t :: tokens) n) = .ok stmt s) :
    ∃ ts rest m, Passed p (t :: tokens) ts s rest m ∧ ReadsStatement n ts stmt m := by
  unfold output at ran
  obtain ⟨word, _, advanced, ran⟩ := bind_ok.1 ran
  obtain ⟨rfl, rfl, valueClosed⟩ := advance_ok closed (by simp [starts]) advanced
  obtain ⟨⟨e, stop⟩, _, read, ran⟩ := bind_ok.1 ran
  obtain ⟨ts, ender, rest, m, ⟨rfl, restClosed, rfl⟩, reads, ends, rfl⟩ :=
    terminated_reads valueClosed read
  cases ran
  exact ⟨word :: ts ++ [ender], rest, m, ⟨by simp, restClosed, by simp⟩, .output starts reads ends⟩

theorem throwing_reads {stmt : Stmt} (starts : t.kind = .throwKeyword)
    (closed : Closed (t :: tokens))
    (ran : (throwing standard fuel).run (place p (t :: tokens) n) = .ok stmt s) :
    ∃ ts rest m, Passed p (t :: tokens) ts s rest m ∧ ReadsStatement n ts stmt m := by
  unfold throwing at ran
  obtain ⟨word, _, advanced, ran⟩ := bind_ok.1 ran
  obtain ⟨rfl, rfl, valueClosed⟩ := advance_ok closed (by simp [starts]) advanced
  obtain ⟨⟨e, stop⟩, _, read, ran⟩ := bind_ok.1 ran
  obtain ⟨ts, ender, rest, m, ⟨rfl, restClosed, rfl⟩, reads, ends, rfl⟩ :=
    terminated_reads valueClosed read
  cases ran
  exact ⟨word :: ts ++ [ender], rest, m, ⟨by simp, restClosed, by simp⟩, .throw starts reads ends⟩

theorem bare_reads {stmt : Stmt} (closed : Closed tokens)
    (ran : (bare standard fuel).run (place p tokens n) = .ok stmt s) :
    ∃ ts rest m, Passed p tokens ts s rest m ∧ ReadsStatement n ts stmt m := by
  unfold bare at ran
  obtain ⟨⟨e, stop⟩, _, read, ran⟩ := bind_ok.1 ran
  obtain ⟨ts, ender, rest, m, ⟨rfl, restClosed, rfl⟩, reads, ends, rfl⟩ :=
    terminated_reads closed read
  cases ran
  exact ⟨ts ++ [ender], rest, m, ⟨rfl, restClosed, rfl⟩, .expression reads ends⟩

theorem parameters_reads {ps : List Parameter} (closed : Closed tokens)
    (ran : (parameters fuel).run (place p tokens n) = .ok ps s) :
    ∃ ts rest, Passed p tokens ts s rest n ∧ ReadsParameters ts ps ∧ ps ≠ [] := by
  induction fuel generalizing p tokens ps s with
  | zero => simp [parameters] at ran
  | succ fuel ih =>
    simp only [parameters] at ran
    obtain ⟨name, _, expected, ran⟩ := bind_ok.1 ran
    obtain ⟨tokens, rfl, named, rfl, restClosed⟩ := expectOr_ok closed (by decide) expected
    obtain ⟨taken, _, accepted, ran⟩ := bind_ok.1 ran
    rcases accept_ok restClosed (by decide) accepted with
      ⟨rfl, comma, tokens, rfl, separated, rfl, more⟩ | ⟨rfl, rfl⟩
    · obtain ⟨others, _, read, ran⟩ := bind_ok.1 ran
      obtain ⟨us, last, ⟨rfl, lastClosed, rfl⟩, reads, some⟩ := ih more read
      cases ran
      exact ⟨name :: comma :: us, last, ⟨rfl, lastClosed, rfl⟩, .more named separated reads some,
        by simp⟩
    · cases ran
      exact ⟨[name], tokens, ⟨rfl, restClosed, rfl⟩, .last named, by simp⟩

theorem parametersUntil_reads {close : TokenKind} {ps : List Parameter} (closed : Closed tokens)
    (ran : (parametersUntil fuel close).run (place p tokens n) = .ok ps s) :
    ∃ ts rest, Passed p tokens ts s rest n ∧ ReadsParameters ts ps := by
  unfold parametersUntil at ran
  rw [bind_run kind_run] at ran
  split at ran
  · cases ran
    exact ⟨[], tokens, ⟨rfl, closed, rfl⟩, .none⟩
  · obtain ⟨ts, rest, passed, reads, -⟩ := parameters_reads closed ran
    exact ⟨ts, rest, passed, reads⟩

-- The word that starts a statement says which kind it is.
inductive StartsBy : TokenKind → StatementRule → Prop where
  | declaration {k fixed} (starts : k.NamesDeclaration fixed) : StartsBy k .declaration
  | function : StartsBy .funcKeyword .function
  | output : StartsBy .showKeyword .output
  | throw : StartsBy .throwKeyword .throw

theorem startsBy_of_statement {k : TokenKind} {rule : StatementRule}
    (found : standard.statement k = some rule) : StartsBy k rule := by
  cases k with
  | varKeyword => cases found; exact .declaration .changeable
  | fixedKeyword => cases found; exact .declaration .fixed
  | funcKeyword | showKeyword | throwKeyword => cases found; constructor
  | _ => cases found

theorem statement_ne_eof {k : TokenKind} {rule : StatementRule}
    (found : standard.statement k = some rule) : k ≠ .eof := by
  rintro rfl
  cases found

structure StatementsWithin (fuel : Nat) : Prop where
  statement : ∀ {p tokens n stmt s}, Closed tokens →
    (statement standard fuel).run (place p tokens n) = .ok stmt s →
    ∃ ts rest m, Passed p tokens ts s rest m ∧ ReadsStatement n ts stmt m
  statementBy : ∀ {rule p t tokens n stmt s}, standard.statement t.kind = some rule →
    Closed (t :: tokens) →
    (statementBy standard fuel rule).run (place p (t :: tokens) n) = .ok stmt s →
    ∃ ts rest m, Passed p (t :: tokens) ts s rest m ∧ ReadsStatement n ts stmt m
  block : ∀ {p tokens n body s}, Closed tokens →
    (block standard fuel).run (place p tokens n) = .ok body s →
    ∃ ts rest m, Passed p tokens ts s rest m ∧ ReadsBody n ts body m

theorem statement_reads (within : StatementsWithin fuel) {stmt : Stmt} (closed : Closed tokens)
    (ran : (statement standard (fuel + 1)).run (place p tokens n) = .ok stmt s) :
    ∃ ts rest m, Passed p tokens ts s rest m ∧ ReadsStatement n ts stmt m := by
  match tokens, closed.ne_nil with
  | t :: tokens, _ =>
    simp only [statement] at ran
    rw [bind_run cursor_run, place_kind] at ran
    split at ran
    · rename_i rule found
      exact within.statementBy found closed ran
    · split at ran
      · exact assignment_reads closed ran
      · exact bare_reads closed ran

theorem function_reads (within : StatementsWithin fuel) {stmt : Stmt}
    (starts : t.kind = .funcKeyword) (closed : Closed (t :: tokens))
    (ran : (statementBy standard (fuel + 1) .function).run (place p (t :: tokens) n) = .ok stmt s) :
    ∃ ts rest m, Passed p (t :: tokens) ts s rest m ∧ ReadsStatement n ts stmt m := by
  simp only [statementBy] at ran
  obtain ⟨word, _, advanced, ran⟩ := bind_ok.1 ran
  obtain ⟨rfl, rfl, nameClosed⟩ := advance_ok closed (by simp [starts]) advanced
  obtain ⟨name, _, expected, ran⟩ := bind_ok.1 ran
  obtain ⟨tokens, rfl, named, rfl, openerClosed⟩ := expectOr_ok nameClosed (by decide) expected
  obtain ⟨opener, _, expected, ran⟩ := bind_ok.1 ran
  obtain ⟨tokens, rfl, opens, rfl, namesClosed⟩ := expectOr_ok openerClosed (by decide) expected
  obtain ⟨ps, _, read, ran⟩ := bind_ok.1 ran
  obtain ⟨ts, rest, ⟨rfl, restClosed, rfl⟩, reads⟩ := parametersUntil_reads namesClosed read
  obtain ⟨closer, _, expected, ran⟩ := bind_ok.1 ran
  obtain ⟨tokens, rfl, closes, rfl, openingClosed⟩ := expectOr_ok restClosed (by decide) expected
  obtain ⟨opening, _, expected, ran⟩ := bind_ok.1 ran
  obtain ⟨tokens, rfl, begins, rfl, bodyClosed⟩ := expectOr_ok openingClosed (by decide) expected
  obtain ⟨body, _, read, ran⟩ := bind_ok.1 ran
  obtain ⟨us, rest, m, ⟨rfl, closingClosed, rfl⟩, readsBody⟩ := within.block bodyClosed read
  obtain ⟨closing, _, expected, ran⟩ := bind_ok.1 ran
  obtain ⟨last, rfl, ends, rfl, lastClosed⟩ := expectOr_ok closingClosed (by decide) expected
  cases ran
  refine ⟨word :: name :: opener :: ts ++ closer :: opening :: us ++ [closing], last, m,
    ⟨by simp, lastClosed, by simp⟩, ?_⟩
  exact .function starts named opens reads closes begins readsBody ends

theorem statementBy_reads (within : StatementsWithin fuel) {rule : StatementRule} {stmt : Stmt}
    (found : standard.statement t.kind = some rule) (closed : Closed (t :: tokens))
    (ran : (statementBy standard (fuel + 1) rule).run (place p (t :: tokens) n) = .ok stmt s) :
    ∃ ts rest m, Passed p (t :: tokens) ts s rest m ∧ ReadsStatement n ts stmt m := by
  generalize kind : t.kind = k at found
  cases startsBy_of_statement found with
  | declaration starts => exact declaration_reads (kind ▸ starts) closed ran
  | function => exact function_reads within kind closed ran
  | output => exact output_reads kind closed ran
  | throw => exact throwing_reads kind closed ran

theorem block_reads (within : StatementsWithin fuel) {body : List Stmt} (closed : Closed tokens)
    (ran : (block standard (fuel + 1)).run (place p tokens n) = .ok body s) :
    ∃ ts rest m, Passed p tokens ts s rest m ∧ ReadsBody n ts body m := by
  simp only [block] at ran
  rw [bind_run kind_run] at ran
  split at ran
  · cases ran
    exact ⟨[], tokens, n, ⟨rfl, closed, rfl⟩, .none⟩
  · simp at ran
  · obtain ⟨stmt, _, read, ran⟩ := bind_ok.1 ran
    obtain ⟨ts, rest, m, ⟨rfl, restClosed, rfl⟩, reads⟩ := within.statement closed read
    obtain ⟨others, _, read, ran⟩ := bind_ok.1 ran
    obtain ⟨us, last, k, ⟨rfl, lastClosed, rfl⟩, readsOthers⟩ := within.block restClosed read
    cases ran
    exact ⟨ts ++ us, last, k, ⟨by simp, lastClosed, by simp⟩, .more reads readsOthers⟩

theorem statements_within (fuel : Nat) : StatementsWithin fuel := by
  induction fuel with
  | zero => constructor <;> intros <;> simp_all [statement, statementBy, block]
  | succ fuel within =>
    exact ⟨statement_reads within, statementBy_reads within, block_reads within⟩

theorem statements_reads {body : List Stmt} (closed : Closed tokens)
    (ran : (statements standard fuel).run (place p tokens n) = .ok body s) :
    ∃ ts ender rest m, Passed p tokens ts s (ender :: rest) m ∧ ReadsBody n ts body m ∧
      ender.kind = .eof := by
  induction fuel generalizing p tokens n body s with
  | zero => simp [statements] at ran
  | succ fuel ih =>
    simp only [statements] at ran
    rw [bind_run cursor_run] at ran
    split at ran
    · rename_i ended
      cases ran
      match tokens, closed.ne_nil with
      | ender :: rest, _ =>
        exact ⟨[], ender, rest, n, ⟨rfl, closed, rfl⟩, .none, by simpa [Cursor.atEnd] using ended⟩
    · obtain ⟨stmt, _, read, ran⟩ := bind_ok.1 ran
      obtain ⟨ts, rest, m, ⟨rfl, restClosed, rfl⟩, reads⟩ :=
        (statements_within fuel).statement closed read
      obtain ⟨others, _, read, ran⟩ := bind_ok.1 ran
      obtain ⟨us, ender, last, k, ⟨rfl, lastClosed, rfl⟩, readsOthers, ends⟩ := ih restClosed read
      cases ran
      exact ⟨ts ++ us, ender, last, k, ⟨by simp, lastClosed, by simp⟩,
        .more reads readsOthers, ends⟩

-- Reading stops at an end mark, and the tokens before it spell the program.
theorem program_reads {program : Program}
    (ran : Parse.program.run (start tokens) = .ok program s) :
    ∃ ts ender rest m, Passed none (Cursor.closed tokens) ts s (ender :: rest) m ∧
      ender.kind = .eof ∧ ReadsBody 0 ts program.body m := by
  rw [start_eq_place] at ran
  unfold Parse.program at ran
  rw [bind_run cursor_run] at ran
  obtain ⟨body, _, read, ran⟩ := bind_ok.1 ran
  unfold withBudget at read
  rw [bind_run cursor_run] at read
  obtain ⟨ts, ender, rest, m, passed, reads, ends⟩ :=
    statements_reads (Cursor.closed_closed tokens) read
  cases ran
  exact ⟨ts, ender, rest, m, passed, ends, reads⟩

theorem ofTokens_ok {program : Program} :
    Program.ofTokens tokens = .ok program ↔
      ∃ s, Parse.program.run (start tokens) = .ok program s := by
  unfold Program.ofTokens
  cases Parse.program.run (start tokens) with
  | ok found s => simp
  | error stop s => simp

theorem ofTokens_reads {program : Program} (read : Program.ofTokens tokens = .ok program) :
    ∃ (ts : List Token) (ender : Token) (rest : List Token) (m : NodeId),
      Cursor.closed tokens = ts ++ ender :: rest ∧ ender.kind = .eof ∧
      ReadsBody 0 ts program.body m := by
  obtain ⟨s, ran⟩ := ofTokens_ok.1 read
  obtain ⟨ts, ender, rest, m, passed, ends, reads⟩ := program_reads ran
  exact ⟨ts, ender, rest, m, passed.split, ends, reads⟩

end Scriptlet.Parse
