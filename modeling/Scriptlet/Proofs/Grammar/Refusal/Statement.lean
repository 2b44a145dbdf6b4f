import Scriptlet.Proofs.Grammar.Refusal.Expression

namespace Scriptlet

open Parse
open Grammar (standard)

variable {p : Option Position} {n : NodeId} {ts us rest : List Token} {bad word : Token}
  {c : Nat} {position : Position}

theorem BreaksBefore.terminated (breaks : BreaksBefore .semicolon us bad)
    (lexical : AllLexical us) (closed : Closed (bad :: rest)) :
    Fails (terminated standard ·) (place p (us ++ bad :: rest) n) (4 * us.length + 2)
      bad.span.start :=
  (breaks.refused lexical closed).fails fun _ value stop => pure (value, stop.span.stop)

namespace Parse

theorem initializer_none {t : Token} (other : t.kind ≠ .assignment) (fuel : Nat) :
    (initializer standard fuel).run (place p (t :: rest) n) = .ok none (place p (t :: rest) n) := by
  unfold initializer
  rw [bind_run (accept_run_other other)]
  rfl

theorem initializer_run {sign : Token} (assigns : sign.kind = .assignment) (more : rest ≠ [])
    (fuel : Nat) :
    (initializer standard fuel).run (place p (sign :: rest) n) =
      (expression standard fuel .default >>= fun e => pure (some e)).run
        (place (some sign.span.stop) rest n) := by
  unfold initializer
  rw [bind_run (accept_run assigns more)]
  simp only [reduceIte, map_eq_pure_bind]

variable {name : Token} {tokens : List Token} {q : Option Position} {m : NodeId}
  {value : Option Expr}

theorem declarators_end (named : name.kind = .identifier) (more : tokens ≠ [])
    (separate : bad.kind ≠ .comma)
    (gives : Gives (initializer standard ·) (place (some name.span.stop) tokens n) c
      (.ok value (place q (bad :: rest) m))) :
    ∃ ds, Gives (declarators standard ·) (place p (name :: tokens) n) (c + 1)
      (.ok ds (place q (bad :: rest) m)) := by
  let span : Span := ⟨name.span.start, (place q (bad :: rest) m).cursor.previousEnd⟩
  refine ⟨[⟨name.value, value, span⟩], gives_succ fun fuel enough => ?_⟩
  rw [declarators_succ, bind_run (expectNamed_run named more), bind_run (gives fuel enough),
    bind_run cursor_run]
  dsimp only
  rw [bind_run (accept_run_other separate)]
  rfl

theorem declarators_stuck {comma : Token} {middle : List Token} (named : name.kind = .identifier)
    (more : tokens ≠ []) (separated : comma.kind = .comma) (later : middle ≠ [])
    (gives : Gives (initializer standard ·) (place (some name.span.stop) tokens n) c
      (.ok value (place q (comma :: middle) m)))
    (others : Stuck (declarators standard ·) .semicolon (place (some comma.span.stop) middle m) c
      bad rest) :
    Stuck (declarators standard ·) .semicolon (place p (name :: tokens) n) (c + 1) bad rest := by
  let span : Span := ⟨name.span.start, (place q (comma :: middle) m).cursor.previousEnd⟩
  apply others.built (⟨name.value, value, span⟩ :: ·)
  intro fuel enough
  rw [declarators_succ, bind_run (expectNamed_run named more), bind_run (gives fuel enough),
    bind_run cursor_run]
  dsimp only
  rw [bind_run (accept_run separated later)]
  rfl

end Parse

theorem BreaksDeclarators.refused (breaks : BreaksDeclarators ts bad) (lexical : AllLexical ts)
    (closed : Closed (bad :: rest)) :
    Stuck (declarators standard ·) .semicolon (place p (ts ++ bad :: rest) n) (4 * ts.length + 3)
      bad rest := by
  induction breaks generalizing p n with
  | @name bad other =>
    left
    apply Fails.at_once
    · intro fuel
      rw [declarators_succ]
      exact bind_error (expectOr_other other)
    · rfl
  | @bare name bad named assigns separate other =>
    obtain ⟨ds, gives⟩ := declarators_end (c := 0) (p := p) named (by simp) separate
      fun fuel _ => initializer_none assigns fuel
    exact .inr ⟨ds, _, n, other, gives.mono (by omega)⟩
  | @value name sign us bad named assigns value =>
    have fails := value.refused lexical.cons.2.cons.2 (p := some sign.span.stop) (n := n)
      (by decide) closed
    left
    apply Fails.mono
    · apply fails.first
      intro fuel _
      rw [declarators_succ, List.cons_append, bind_run (expectNamed_run named (by simp)),
        List.cons_append, EStateM.run_bind, initializer_run assigns (by simp), ← EStateM.run_bind,
        bind_assoc]
    · simp only [List.length_cons]
      omega
  | @unclosed name sign us e bad named assigns value loose separate other =>
    obtain ⟨e', m, reads, -⟩ := value.reads lexical.cons.2.cons.2 n
    have reading := reads.given.inside (p := some sign.span.stop) closed loose
    have gives : Gives (initializer standard ·)
        (place (some name.span.stop) (sign :: (us ++ bad :: rest)) n) (1 + 3 * us.length)
        (.ok (some e') (place (lastStop (some sign.span.stop) us) (bad :: rest) m)) := by
      intro fuel enough
      rw [initializer_run assigns (by simp), bind_run (reading fuel enough)]
      rfl
    obtain ⟨ds, gives⟩ := declarators_end (p := p) named (by simp) separate gives
    exact .inr ⟨ds, _, m, other, gives.mono (by simp only [List.length_cons]; omega)⟩
  | @more comma ts d us bad item separated _ ih =>
    obtain ⟨d', m, reads, -⟩ := item.reads lexical.append.1 n
    have between : Closed (comma :: (us ++ bad :: rest)) := closed.append.cons
    obtain ⟨name, vs, rfl, named, -, -, gives⟩ := reads.initializer (.inl separated) between
    have others := ih (p := some comma.span.stop) (n := m) lexical.append.2.cons.2 closed
    have shape : name :: vs ++ comma :: us ++ bad :: rest =
        name :: (vs ++ comma :: (us ++ bad :: rest)) := by simp
    rw [shape]
    have stuck := declarators_stuck (p := p) (c := 4 * us.length + 4 * vs.length + 3) named
      (by simp) separated (by simp) (gives.mono (by omega)) (others.mono (by omega))
    exact stuck.mono (by simp only [List.length_append, List.length_cons]; omega)

theorem BreaksParameters.refused (breaks : BreaksParameters ts bad) :
    Stuck parameters .closeParen (place p (ts ++ bad :: rest) n) (ts.length + 1) bad rest := by
  induction breaks generalizing p with
  | @name bad other =>
    left
    apply Fails.at_once
    · intro fuel
      simp only [parameters]
      exact bind_error (expectOr_other other)
    · rfl
  | @unclosed name bad named separate other =>
    refine .inr ⟨[⟨name.value, name.span⟩], some name.span.stop, n, other,
      (gives_succ (c := 0) fun fuel _ => ?_).mono (by simp)⟩
    simp only [parameters]
    rw [List.cons_append, bind_run (expectNamed_run named (by simp)), List.nil_append,
      bind_run (accept_run_other separate)]
    rfl
  | @more name comma us bad named separated _ ih =>
    have stuck : Stuck parameters .closeParen (place p (name :: comma :: us ++ bad :: rest) n)
        (us.length + 1 + 1) bad rest := by
      apply (ih (p := some comma.span.stop)).built (⟨name.value, name.span⟩ :: ·)
      intro fuel _
      simp only [parameters]
      rw [List.cons_append, bind_run (expectNamed_run named (by simp)), List.cons_append,
        bind_run (accept_run separated (by simp))]
      rfl
    exact stuck.mono (by simp)

theorem BreaksParameters.until (breaks : BreaksParameters us bad)
    (filled : (us.headD bad).kind ≠ .closeParen) :
    Stuck (parametersUntil · .closeParen) .closeParen (place p (us ++ bad :: rest) n)
      (us.length + 1) bad rest := by
  have passes : ∀ fuel, (parametersUntil fuel .closeParen).run (place p (us ++ bad :: rest) n) =
      (parameters fuel).run (place p (us ++ bad :: rest) n) := by
    intro fuel
    rw [cons_of_headD us rest bad]
    unfold parametersUntil
    rw [bind_run kind_run, place_kind, if_neg filled]
  rcases breaks.refused with ⟨cause, last, unexpected, gives⟩ | ⟨ps, q, m, other, gives⟩
  · exact .inl ⟨cause, last, unexpected,
      fun fuel enough => (passes fuel).trans (gives fuel enough)⟩
  · exact .inr ⟨ps, q, m, other, fun fuel enough => (passes fuel).trans (gives fuel enough)⟩

theorem SpellsHeader.fails (header : SpellsHeader ts) (more : rest ≠ [])
    (body : Fails (block standard ·) (place (lastStop p (word :: ts)) rest n) c position) :
    Fails (statementBy standard · .function) (place p (word :: (ts ++ rest)) n)
      (c + ts.length + 1) position := by
  cases header with
  | @intro name opener closer opening us ps named opens parameters closes begins =>
    obtain ⟨ps', reads, -⟩ := parameters.reads
    have shape : name :: opener :: us ++ [closer, opening] ++ rest =
        name :: opener :: (us ++ closer :: opening :: rest) := by simp
    apply (body.mono (Nat.le_add_right _ _)).first
    intro fuel enough
    simp only [List.length_append, List.length_cons] at enough
    simp only [statementBy]
    rw [shape, bind_run (advance_run (by simp)), bind_run (expectNamed_run named (by simp)),
      bind_run (expect_run opens (by simp)),
      bind_run (parametersUntil_gives reads closes fuel (by omega)),
      bind_run (expect_run closes (by simp)), bind_run (expect_run begins more),
      lastStop_cons, lastStop_append]
    rfl

theorem BreaksHeader.refused (breaks : BreaksHeader ts bad) :
    Fails (statementBy standard · .function) (place p (word :: (ts ++ bad :: rest)) n)
      (ts.length + 2) bad.span.start := by
  cases breaks with
  | name other =>
    apply Fails.at_once
    · intro fuel
      simp only [statementBy]
      rw [bind_run (advance_run (by simp))]
      exact bind_error (expectOr_other other)
    · rfl
  | opener named other =>
    apply Fails.at_once
    · intro fuel
      simp only [statementBy]
      rw [bind_run (advance_run (by simp)), List.cons_append,
        bind_run (expectNamed_run named (by simp))]
      exact bind_error (expectOr_other other)
    · rfl
  | @parameters name opener us _ named opens parameters filled =>
    apply Fails.mono
    · apply (parameters.until filled).first
      intro fuel _
      simp only [statementBy]
      rw [bind_run (advance_run (by simp)), List.cons_append,
        bind_run (expectNamed_run named (by simp)), List.cons_append,
        bind_run (expect_run opens (by simp))]
    · simp only [List.length_cons]
      omega
  | @opening name opener us ps closer _ named opens parameters closes other =>
    obtain ⟨ps', reads, -⟩ := parameters.reads
    have shape : name :: opener :: us ++ [closer] ++ bad :: rest =
        name :: opener :: (us ++ closer :: bad :: rest) := by simp
    refine ⟨.unexpectedToken bad.value, place (some closer.span.stop) (bad :: rest) n, rfl,
      gives_succ fun fuel enough => ?_⟩
    simp only [statementBy]
    rw [shape, bind_run (advance_run (by simp)), bind_run (expectNamed_run named (by simp)),
      bind_run (expect_run opens (by simp)),
      bind_run (parametersUntil_gives reads closes fuel (by simp at enough; omega)),
      bind_run (expect_run closes (by simp))]
    exact bind_error (expectOr_other other)

-- Reading a statement fails at the bad token.
def RefusedStatement (ts : List Token) (bad : Token) : Prop :=
  ∀ ⦃p rest n⦄, Closed (bad :: rest) →
    Fails (statement standard ·) (place p (ts ++ bad :: rest) n) (4 * ts.length + 3) bad.span.start

def RefusedBlock (ts : List Token) (bad : Token) : Prop :=
  ∀ ⦃p rest n⦄, Closed (bad :: rest) →
    Fails (block standard ·) (place p (ts ++ bad :: rest) n) (4 * ts.length + 4) bad.span.start

theorem refusedStatement_by {rule : StatementRule}
    (found : standard.statement word.kind = some rule)
    (refused : ∀ {p rest n}, Closed (bad :: rest) →
      Fails (statementBy standard · rule) (place p (word :: (us ++ bad :: rest)) n)
        (4 * us.length + 6) bad.span.start) : RefusedStatement (word :: us) bad := by
  intro p rest n closed
  have whole : Fails (statement standard ·) (place p (word :: (us ++ bad :: rest)) n)
      (4 * us.length + 6 + 1) bad.span.start := by
    apply (refused closed).handed
    intro fuel _
    simp only [statement]
    rw [bind_run cursor_run, place_kind, found]
  exact whole.mono (by simp only [List.length_cons]; omega)

theorem refusedStatement_declaration {fixed : Bool} (starts : word.kind.NamesDeclaration fixed)
    (names : BreaksDeclarators us bad) (lexical : AllLexical us) :
    RefusedStatement (word :: us) bad := by
  have found : standard.statement word.kind = some .declaration := by
    generalize word.kind = k at starts
    cases starts <;> rfl
  apply refusedStatement_by found
  intro p rest n closed
  apply Fails.mono
  · apply (names.refused lexical closed).first
    intro fuel _
    simp only [statementBy, declaration]
    rw [bind_run (advance_run (by simp))]
  · omega

theorem refusedStatement_value {rule : StatementRule} {next : Token → Expr × Position → Parse Stmt}
    (found : standard.statement word.kind = some rule)
    (reads : ∀ fuel, statementBy standard (fuel + 1) rule =
      advance >>= fun first => terminated standard fuel >>= next first)
    (value : BreaksBefore .semicolon us bad) (lexical : AllLexical us) :
    RefusedStatement (word :: us) bad := by
  apply refusedStatement_by found
  intro p rest n closed
  apply Fails.mono
  · apply (value.terminated lexical closed).first
    intro fuel _
    rw [reads, bind_run (advance_run (by simp))]
  · omega

theorem refusedStatement_output (starts : word.kind = .showKeyword)
    (value : BreaksBefore .semicolon us bad) (lexical : AllLexical us) :
    RefusedStatement (word :: us) bad :=
  refusedStatement_value (by rw [starts]; rfl) (fun _ => by simp only [statementBy, output]; rfl)
    value lexical

theorem refusedStatement_throw (starts : word.kind = .throwKeyword)
    (value : BreaksBefore .semicolon us bad) (lexical : AllLexical us) :
    RefusedStatement (word :: us) bad :=
  refusedStatement_value (by rw [starts]; rfl) (fun _ => by simp only [statementBy, throwing]; rfl)
    value lexical

theorem refusedStatement_header (starts : word.kind = .funcKeyword) (header : BreaksHeader us bad) :
    RefusedStatement (word :: us) bad := by
  have found : standard.statement word.kind = some .function := by rw [starts]; rfl
  apply refusedStatement_by found
  intro p rest n closed
  exact header.refused.mono (by omega)

theorem refusedStatement_body (starts : word.kind = .funcKeyword) (header : SpellsHeader ts)
    (body : RefusedBlock us bad) : RefusedStatement (word :: ts ++ us) bad := by
  have found : standard.statement word.kind = some .function := by rw [starts]; rfl
  rw [List.cons_append]
  apply refusedStatement_by found
  intro p rest n closed
  rw [List.append_assoc]
  exact (header.fails (by simp) (body closed)).mono
    (by simp only [List.length_append]; omega)

theorem refusedStatement_assignment {name sign : Token} {op : AssignOp}
    (named : name.kind = .identifier) (assigns : sign.kind.NamesAssignment op)
    (value : BreaksBefore .semicolon us bad) (lexical : AllLexical us) :
    RefusedStatement (name :: sign :: us) bad := by
  intro p rest n closed
  obtain ⟨isSign, found⟩ := NamesAssignment.isAssignment assigns
  have unruled : standard.statement name.kind = none := by rw [named]; rfl
  have starts :
      startsAssignment (place p (name :: sign :: (us ++ bad :: rest)) n).cursor = true := by
    simp [startsAssignment, place, Cursor.kind, Cursor.peek, named, isSign]
  apply Fails.mono
  · apply (value.terminated lexical closed).first
    intro fuel _
    simp only [statement, List.cons_append]
    rw [bind_run cursor_run, place_kind, unruled]
    simp only [starts, reduceIte, assignment]
    rw [bind_run (expect_run named (by simp)), bind_run kind_run, place_kind, found]
    dsimp only
    rw [bind_run (advance_run (by simp))]
  · simp only [List.length_cons]
    omega

theorem ne_identifier_of_shut {k : TokenKind} (shut : standard.opening k = none) :
    k ≠ .identifier := by
  rintro rfl
  cases shut

theorem startsAssignment_pair {name sign : Token} {later : List Token}
    (plain : ¬ StartsAssignment (name :: sign :: us)) :
    startsAssignment (place p (name :: sign :: later) n).cursor = false := by
  by_cases named : name.kind = .identifier
  · have other : sign.kind.isAssignment = false := by
      cases assigns : sign.kind.isAssignment with
      | false => rfl
      | true => exact absurd ⟨named, assigns⟩ plain
    simp [startsAssignment, place, Cursor.peek, other]
  · simp [startsAssignment, place, Cursor.kind, named]

theorem startsAssignment_plain (breaks : BreaksBefore .semicolon us bad)
    (plain : ¬ StartsAssignment (us ++ [bad])) :
    startsAssignment (place p (us ++ bad :: rest) n).cursor = false := by
  rcases us with _ | ⟨u, _ | ⟨v, us⟩⟩
  · have other := ne_identifier_of_shut breaks.shut
    simp [startsAssignment, place, Cursor.kind, other]
  · exact startsAssignment_pair plain
  · exact startsAssignment_pair plain

theorem refusedStatement_expression (value : BreaksBefore .semicolon us bad)
    (lexical : AllLexical us) (unruled : standard.statement (us.headD bad).kind = none)
    (plain : ¬ StartsAssignment (us ++ [bad])) : RefusedStatement us bad := by
  intro p rest n closed
  have look : startsAssignment (place p (us ++ bad :: rest) n).cursor = false :=
    startsAssignment_plain value plain
  apply (value.terminated lexical closed).first
  intro fuel _
  simp only [statement]
  rw [bind_run cursor_run, place_headD, unruled]
  simp only [look, Bool.false_eq_true, reduceIte, bare]
  rfl

theorem refusedBlock_here (statement : RefusedStatement us bad)
    (unclosed : (us.headD bad).kind ≠ .closeCurly) (more : (us.headD bad).kind ≠ .eof) :
    RefusedBlock us bad := by
  intro p rest n closed
  apply (statement closed).first
  intro fuel _
  simp only [block]
  rw [bind_run kind_run, place_headD]
  split
  · contradiction
  · contradiction
  · rfl

theorem refusedBlock_later {stmt : Stmt} (first : SpellsStatement ts stmt)
    (lexical : AllLexical ts) (others : RefusedBlock us bad) : RefusedBlock (ts ++ us) bad := by
  intro p rest n closed
  obtain ⟨stmt', m, reads, -⟩ := first.reads lexical n
  obtain ⟨t, vs, same, unclosed, more⟩ := reads.starts
  have filled : 0 < ts.length := by simp [same]
  have kind : (place p (ts ++ (us ++ bad :: rest)) n).cursor.kind = t.kind := by
    rw [same]
    rfl
  have fails := (others (p := lastStop p ts) (n := m) closed).mono
    (show 4 * us.length + 4 ≤ 4 * us.length + 3 * ts.length + 4 by omega)
  rw [List.append_assoc]
  apply Fails.mono
  · apply fails.first
    intro fuel enough
    simp only [block]
    rw [bind_run kind_run, kind]
    split
    · contradiction
    · contradiction
    · rw [bind_run (reads.given closed.append fuel (by omega))]
  · simp only [List.length_append]
    omega

theorem refusedBlock_unclosed (ends : bad.kind = .eof) : RefusedBlock [] bad := by
  intro p rest n _
  apply Fails.at_once
  · intro fuel
    simp only [block]
    rw [List.nil_append, bind_run kind_run, place_kind, ends]
    rfl
  · rfl

mutual

theorem BreaksStatement.refused : ∀ {ts bad}, BreaksStatement ts bad → AllLexical ts →
    RefusedStatement ts bad
  | _, _, .declaration starts names, lexical =>
    refusedStatement_declaration starts names lexical.cons.2
  | _, _, .assignment named assigns value, lexical =>
    refusedStatement_assignment named assigns value lexical.cons.2.cons.2
  | _, _, .header starts header, _ => refusedStatement_header starts header
  | _, _, .body starts header statements, lexical =>
    refusedStatement_body starts header (statements.refused rfl lexical.cons.2.append.2)
  | _, _, .output starts value, lexical => refusedStatement_output starts value lexical.cons.2
  | _, _, .throw starts value, lexical => refusedStatement_throw starts value lexical.cons.2
  | _, _, .expression value unruled plain, lexical =>
    refusedStatement_expression value lexical unruled plain

theorem BreaksBody.refused : ∀ {close ts bad}, BreaksBody close ts bad → close = .closeCurly →
    AllLexical ts → RefusedBlock ts bad
  | _, _, _, .here statement unclosed more, same, lexical =>
    refusedBlock_here (statement.refused lexical) (same ▸ unclosed) more
  | _, _, _, .later first rest, same, lexical =>
    refusedBlock_later first lexical.append.1 (rest.refused same lexical.append.2)
  | _, _, _, .unclosed ends _, _, _ => refusedBlock_unclosed ends

end

-- Reading the statements of a program fails at the bad token.
def RefusedStatements (ts : List Token) (bad : Token) : Prop :=
  ∀ ⦃p rest n⦄, Closed (bad :: rest) →
    Fails (statements standard ·) (place p (ts ++ bad :: rest) n) (4 * ts.length + 4) bad.span.start

theorem refusedStatements_here (statement : RefusedStatement us bad)
    (more : (us.headD bad).kind ≠ .eof) : RefusedStatements us bad := by
  intro p rest n closed
  have going : (place p (us ++ bad :: rest) n).cursor.atEnd = false := by
    simpa [Cursor.atEnd, place_headD] using more
  apply (statement closed).first
  intro fuel _
  simp only [statements]
  rw [bind_run cursor_run]
  simp only [going, Bool.false_eq_true, reduceIte]
  rfl

theorem refusedStatements_later {stmt : Stmt} (first : SpellsStatement ts stmt)
    (lexical : AllLexical ts) (others : RefusedStatements us bad) :
    RefusedStatements (ts ++ us) bad := by
  intro p rest n closed
  obtain ⟨stmt', m, reads, -⟩ := first.reads lexical n
  obtain ⟨t, vs, same, -, more⟩ := reads.starts
  have filled : 0 < ts.length := by simp [same]
  have going : (place p (ts ++ (us ++ bad :: rest)) n).cursor.atEnd = false := by
    rw [same]
    simpa [Cursor.atEnd, place, Cursor.kind] using more
  have fails := (others (p := lastStop p ts) (n := m) closed).mono
    (show 4 * us.length + 4 ≤ 4 * us.length + 3 * ts.length + 4 by omega)
  rw [List.append_assoc]
  apply Fails.mono
  · apply fails.first
    intro fuel enough
    simp only [statements]
    rw [bind_run cursor_run]
    simp only [going, Bool.false_eq_true, reduceIte]
    rw [bind_run (reads.given closed.append fuel (by omega))]
  · simp only [List.length_append]
    omega

theorem BreaksBody.refusedStatements : ∀ {close ts bad}, BreaksBody close ts bad → close = .eof →
    AllLexical ts → RefusedStatements ts bad
  | _, _, _, .here statement _ more, _, lexical =>
    refusedStatements_here (statement.refused lexical) more
  | _, _, _, .later first rest, same, lexical =>
    refusedStatements_later first lexical.append.1 (rest.refusedStatements same lexical.append.2)
  | _, _, _, .unclosed _ other, same, _ => absurd same other

theorem BreaksBody.ofTokens (breaks : BreaksBody .eof ts bad) (lexical : AllLexical ts)
    (closed : Closed (bad :: rest)) :
    ∃ cause, Program.ofTokens (ts ++ bad :: rest) = .error ⟨cause, bad.span.start⟩ := by
  obtain ⟨cause, last, -, gives⟩ := breaks.refusedStatements rfl lexical (p := none) (n := 0) closed
  have run := gives (8 * ((ts ++ bad :: rest).length + 3)) (by rw [List.length_append]; omega)
  refine ⟨cause, ?_⟩
  unfold Program.ofTokens
  rw [program_run closed.append, run]
  rfl

end Scriptlet
