import Scriptlet.Proofs.Grammar.Complete.Expression
import Scriptlet.Proofs.Grammar.Sound.Statement

namespace Scriptlet

open Parse
open Grammar (standard)

variable {p : Option Position} {n m k : NodeId} {ts us rest : List Token} {e : Expr}
  {stop closer : Token}

theorem Reads.terminated (reads : Reads .disjunction n ts e m) (ends : stop.kind = .semicolon)
    (closed : Closed rest) :
    Gives (terminated standard ·) (place p (ts ++ stop :: rest) n) (1 + 3 * ts.length)
      (.ok (e, stop.span.stop) (place (some stop.span.stop) rest m)) := by
  intro fuel enough
  have plain : headRank (stop :: rest) = 0 := by
    simp only [headRank, ends]
    rfl
  unfold Parse.terminated
  rw [bind_run (reads.given.inside closed.cons plain fuel enough),
    bind_run (expect_run ends closed.ne_nil)]
  rfl

-- A comma or a semicolon.
def Separates (t : Token) : Prop := t.kind = .comma ∨ t.kind = .semicolon

theorem Separates.plain {t : Token} (separates : Separates t) : headRank (t :: rest) = 0 := by
  rcases separates with separated | separated <;> (simp only [headRank, separated]; rfl)

theorem Separates.ne_assignment {t : Token} (separates : Separates t) : t.kind ≠ .assignment := by
  rcases separates with separated | separated <;> simp [separated]

-- The name of a declarator is passed by another step; this is about what comes after it.
theorem ReadsDeclarator.initializer {d : Declarator} (reads : ReadsDeclarator n ts d m)
    (separates : Separates stop) (closed : Closed (stop :: rest)) :
    ∃ name us, ts = name :: us ∧ name.kind = .identifier ∧ d.name = name.value ∧
      d.span = name.hull us ∧
      Gives (initializer standard ·) (place (some name.span.stop) (us ++ stop :: rest) n)
        (1 + 3 * us.length)
        (.ok d.value (place (lastStop (some name.span.stop) us) (stop :: rest) m)) := by
  cases reads with
  | @bare name _ named =>
    refine ⟨name, [], rfl, named, rfl, rfl, ?_⟩
    intro fuel enough
    unfold Parse.initializer
    rw [List.nil_append, bind_run (accept_run_other separates.ne_assignment)]
    rfl
  | @initialized name sign us value _ _ named assigns reads =>
    refine ⟨name, sign :: us, rfl, named, rfl, rfl, ?_⟩
    intro fuel enough
    have reading := reads.given.inside (p := some sign.span.stop) closed separates.plain fuel
      (by simp only [List.length_cons] at enough; omega)
    unfold Parse.initializer
    rw [List.cons_append, bind_run (accept_run assigns (by simp))]
    simp only [reduceIte, map_eq_pure_bind]
    rw [bind_run reading]
    rfl

theorem declarators_gives {ds : List Declarator} (reads : ReadsDeclarators n ts ds m)
    (ends : stop.kind = .semicolon) (closed : Closed rest) :
    Gives (declarators standard ·) (place p (ts ++ stop :: rest) n) (3 * ts.length)
      (.ok ds (place (lastStop p ts) (stop :: rest) m)) := by
  induction reads generalizing p with
  | @last ts d n m item =>
    obtain ⟨name, us, rfl, named, sameName, sameSpan, value⟩ :=
      item.initializer (.inr ends) closed.cons
    refine Gives.mono (c := 1 + 3 * us.length + 1) (gives_succ fun fuel enough => ?_)
      (by simp only [List.length_cons]; omega)
    rw [declarators_succ, List.cons_append, bind_run (expectNamed_run named (by simp)),
      bind_run (value fuel enough), bind_run cursor_run, ← lastStop_cons p name us]
    dsimp only
    rw [previousEnd_place, bind_run (accept_run_other (by simp [ends])), ← sameName, ← sameSpan]
    rfl
  | @more comma ts us d ds n m k item separated others ih =>
    have between : Closed (comma :: (us ++ stop :: rest)) := closed.cons.append.cons
    obtain ⟨name, vs, rfl, named, sameName, sameSpan, value⟩ :=
      item.initializer (.inl separated) between
    refine Gives.mono (c := 3 * us.length + 3 * vs.length + 1 + 1)
      (gives_succ fun fuel enough => ?_)
      (by simp only [List.length_append, List.length_cons]; omega)
    have shape : name :: vs ++ comma :: us ++ stop :: rest =
        name :: (vs ++ comma :: (us ++ stop :: rest)) := by simp
    rw [declarators_succ, shape, bind_run (expectNamed_run named (by simp)),
      bind_run (value fuel (by omega)), bind_run cursor_run, ← lastStop_cons p name vs]
    dsimp only
    rw [previousEnd_place, bind_run (accept_run separated (by simp)), ← sameName, ← sameSpan,
      lastStop_append]
    exact bind_run (ih fuel (by omega))

theorem declaration_gives {word : Token} {fixed : Bool} {ds : List Declarator}
    (starts : word.kind.NamesDeclaration fixed) (reads : ReadsDeclarators n ts ds m)
    (ends : stop.kind = .semicolon) (closed : Closed rest) :
    Gives (declaration standard ·) (place p (word :: (ts ++ stop :: rest)) n) (3 * ts.length)
      (.ok (.declaration ⟨word.span.start, stop.span.stop⟩ fixed ds)
        (place (some stop.span.stop) rest m)) := by
  intro fuel enough
  unfold declaration
  rw [bind_run (advance_run (by simp)), bind_run (declarators_gives reads ends closed fuel enough),
    bind_run (expect_run ends closed.ne_nil), isFixed_of_names starts]
  rfl

theorem parameters_gives {ps : List Parameter} (reads : ReadsParameters ts ps) (filled : ps ≠ [])
    (closes : closer.kind = .closeParen) :
    Gives parameters (place p (ts ++ closer :: rest) n) ts.length
      (.ok ps (place (lastStop p ts) (closer :: rest) n)) := by
  induction reads generalizing p with
  | none => exact absurd rfl filled
  | @last name named =>
    refine gives_succ fun fuel _ => ?_
    simp only [parameters]
    rw [List.cons_append, bind_run (expectNamed_run named (by simp)), List.nil_append,
      bind_run (accept_run_other (by simp [closes]))]
    rfl
  | @more name comma us ps named separated others some ih =>
    refine gives_succ fun fuel enough => ?_
    simp only [parameters]
    rw [List.cons_append, bind_run (expectNamed_run named (by simp)), List.cons_append,
      bind_run (accept_run separated (by simp))]
    exact bind_run (ih some fuel (by simp only [List.length_cons] at enough; omega))

theorem parametersUntil_gives {ps : List Parameter} (reads : ReadsParameters ts ps)
    (closes : closer.kind = .closeParen) :
    Gives (parametersUntil · .closeParen) (place p (ts ++ closer :: rest) n) ts.length
      (.ok ps (place (lastStop p ts) (closer :: rest) n)) := by
  intro fuel enough
  have kinds :
      ps = [] ∧ ts = [] ∨ ps ≠ [] ∧ ∃ name us, ts = name :: us ∧ name.kind = .identifier := by
    cases reads with
    | none => exact .inl ⟨rfl, rfl⟩
    | last named => exact .inr ⟨by simp, _, _, rfl, named⟩
    | more named => exact .inr ⟨by simp, _, _, rfl, named⟩
  unfold parametersUntil
  rcases kinds with ⟨rfl, rfl⟩ | ⟨filled, name, us, rfl, named⟩
  · rw [List.nil_append, bind_run kind_run, place_kind, if_pos closes]
    rfl
  · have other : name.kind ≠ .closeParen := by simp [named]
    rw [List.cons_append, bind_run kind_run, place_kind, if_neg other]
    exact parameters_gives reads filled closes fuel enough

theorem statement_of_opening {k : TokenKind} {rule : OpeningRule}
    (opens : standard.opening k = some rule) : standard.statement k = none := by
  cases k <;> first | rfl | cases opens

theorem InExpression.not_assignment {k : TokenKind} (inside : k.InExpression) :
    k.isAssignment = false := by
  cases inside with
  | opener opens => cases k <;> first | rfl | cases opens
  | operator joins => cases k <;> first | rfl | cases joins
  | closer closes => rcases closes with rfl | rfl | rfl <;> rfl

theorem NamesAssignment.isAssignment {k : TokenKind} {op : AssignOp}
    (named : k.NamesAssignment op) :
    k.isAssignment = true ∧ assignOp? k = some op := by
  cases named <;> exact ⟨rfl, rfl⟩

-- An expression has no assignment sign in it, so a statement that is one does not look like an
-- assignment.
theorem Reads.not_startsAssignment (reads : Reads .disjunction n ts e m)
    (ends : stop.kind = .semicolon) :
    startsAssignment (place p (ts ++ stop :: rest) k).cursor = false := by
  obtain ⟨t, us, rule, rfl, opens⟩ := reads.starts
  have inside := reads.tokens
  cases us with
  | nil => simp [startsAssignment, place, Cursor.peek, ends, TokenKind.isAssignment]
  | cons u us =>
    have plain := InExpression.not_assignment (inside u (by simp))
    simp [startsAssignment, place, Cursor.peek, plain]

theorem ReadsStatement.starts {stmt : Stmt} (reads : ReadsStatement n ts stmt m) :
    ∃ t us, ts = t :: us ∧ t.kind ≠ .closeCurly ∧ t.kind ≠ .eof := by
  cases reads with
  | @declaration word ts stop fixed _ _ _ starts =>
    refine ⟨word, ts ++ [stop], rfl, ?_⟩
    generalize word.kind = k at starts
    cases starts <;> decide
  | assignment named | function named =>
    refine ⟨_, _, rfl, ?_⟩
    simp [named]
  | output starts | throw starts =>
    refine ⟨_, _, rfl, ?_⟩
    simp [starts]
  | @expression ts stop _ _ _ value =>
    obtain ⟨t, us, rule, rfl, opens⟩ := value.starts
    refine ⟨t, us ++ [stop], rfl, ?_, opening_ne_eof opens⟩
    intro same
    rw [same] at opens
    cases opens

def StatementGiven (n : NodeId) (ts : List Token) (stmt : Stmt) (m : NodeId) : Prop :=
  ∀ ⦃p rest⦄, Closed rest →
    Gives (statement standard ·) (place p (ts ++ rest) n) (3 * ts.length + 2)
      (.ok stmt (place (lastStop p ts) rest m))

def BlockGiven (n : NodeId) (ts : List Token) (body : List Stmt) (m : NodeId) : Prop :=
  ∀ ⦃p rest closing⦄, closing.kind = .closeCurly → Closed rest →
    Gives (block standard ·) (place p (ts ++ closing :: rest) n) (3 * ts.length + 3)
      (.ok body (place (lastStop p ts) (closing :: rest) m))

variable {stmt : Stmt} {body : List Stmt} {c : Nat} {s : ParseState} {word : Token}

theorem statement_by {rule : StatementRule} (found : standard.statement word.kind = some rule)
    (given : Gives (statementBy standard · rule) (place p (word :: rest) n) c (.ok stmt s)) :
    Gives (statement standard ·) (place p (word :: rest) n) (c + 1) (.ok stmt s) := by
  refine gives_succ fun fuel enough => ?_
  simp only [statement]
  rw [bind_run cursor_run, place_kind, found]
  exact given fuel enough

theorem statementGiven_by {rule : StatementRule} (found : standard.statement word.kind = some rule)
    (given : ∀ ⦃p rest⦄, Closed rest →
      Gives (statementBy standard · rule) (place p (word :: (ts ++ stop :: rest)) n)
        (3 * ts.length + 2) (.ok stmt (place (some stop.span.stop) rest m))) :
    StatementGiven n (word :: ts ++ [stop]) stmt m := by
  intro p rest closed
  have shape : word :: ts ++ [stop] ++ rest = word :: (ts ++ stop :: rest) := by simp
  rw [shape, lastStop_append]
  exact (statement_by found (given closed)).mono
    (by simp only [List.length_append, List.length_cons]; omega)

theorem statementGiven_declaration {fixed : Bool} {ds : List Declarator}
    (starts : word.kind.NamesDeclaration fixed) (names : ReadsDeclarators n ts ds m)
    (ends : stop.kind = .semicolon) :
    StatementGiven n (word :: ts ++ [stop])
      (.declaration ⟨word.span.start, stop.span.stop⟩ fixed ds) m := by
  have found : standard.statement word.kind = some .declaration := by
    generalize word.kind = k at starts
    cases starts <;> rfl
  refine statementGiven_by found fun p rest closed => gives_succ fun fuel enough => ?_
  simp only [statementBy]
  exact declaration_gives starts names ends closed fuel (by omega)

theorem statementGiven_assignment {name sign : Token} {op : AssignOp}
    (named : name.kind = .identifier) (assigns : sign.kind.NamesAssignment op)
    (value : Reads .disjunction n ts e m) (ends : stop.kind = .semicolon) :
    StatementGiven n (name :: sign :: ts ++ [stop])
      (.assignment ⟨name.span.start, stop.span.stop⟩ name.value name.span op e) m := by
  intro p rest closed
  obtain ⟨isSign, found⟩ := NamesAssignment.isAssignment assigns
  have shape : name :: sign :: ts ++ [stop] ++ rest = name :: sign :: (ts ++ stop :: rest) := by
    simp
  have unruled : standard.statement name.kind = none := by rw [named]; rfl
  have starts :
      startsAssignment (place p (name :: sign :: (ts ++ stop :: rest)) n).cursor = true := by
    simp [startsAssignment, place, Cursor.kind, Cursor.peek, named, isSign]
  rw [shape, lastStop_append]
  refine Gives.mono (c := 1 + 3 * ts.length + 1) (gives_succ fun fuel enough => ?_)
    (by simp only [List.length_append, List.length_cons]; omega)
  simp only [statement]
  rw [bind_run cursor_run, place_kind, unruled]
  simp only [starts, reduceIte, assignment]
  rw [bind_run (expect_run named (by simp)), bind_run kind_run, place_kind, found]
  dsimp only
  rw [bind_run (advance_run (by simp)), bind_run (value.terminated ends closed fuel enough)]
  rfl

theorem statementGiven_expression (value : Reads .disjunction n ts e m)
    (ends : stop.kind = .semicolon) :
    StatementGiven n (ts ++ [stop]) (.expression ⟨e.span.start, stop.span.stop⟩ e) m := by
  intro p rest closed
  have shape : ts ++ [stop] ++ rest = ts ++ stop :: rest := by simp
  have plain : startsAssignment (place p (ts ++ stop :: rest) n).cursor = false :=
    value.not_startsAssignment ends
  obtain ⟨t, us, rule, same, opens⟩ := value.starts
  have unruled : standard.statement (place p (ts ++ stop :: rest) n).cursor.kind = none := by
    rw [same]
    exact statement_of_opening opens
  rw [shape, lastStop_append]
  refine Gives.mono (c := 1 + 3 * ts.length + 1) (gives_succ fun fuel enough => ?_)
    (by simp only [List.length_append]; omega)
  simp only [statement]
  rw [bind_run cursor_run, unruled]
  simp only [plain, Bool.false_eq_true, reduceIte, bare]
  rw [bind_run (value.terminated ends closed fuel enough)]
  rfl

theorem statementGiven_output (starts : word.kind = .showKeyword)
    (value : Reads .disjunction n ts e m) (ends : stop.kind = .semicolon) :
    StatementGiven n (word :: ts ++ [stop]) (.output ⟨word.span.start, stop.span.stop⟩ e) m := by
  have found : standard.statement word.kind = some .output := by rw [starts]; rfl
  refine statementGiven_by found fun p rest closed => gives_succ fun fuel enough => ?_
  simp only [statementBy, output]
  rw [bind_run (advance_run (by simp)), bind_run (value.terminated ends closed fuel (by omega))]
  rfl

theorem statementGiven_throw (starts : word.kind = .throwKeyword)
    (value : Reads .disjunction n ts e m) (ends : stop.kind = .semicolon) :
    StatementGiven n (word :: ts ++ [stop]) (.throw ⟨word.span.start, stop.span.stop⟩ e) m := by
  have found : standard.statement word.kind = some .throw := by rw [starts]; rfl
  refine statementGiven_by found fun p rest closed => gives_succ fun fuel enough => ?_
  simp only [statementBy, throwing]
  rw [bind_run (advance_run (by simp)), bind_run (value.terminated ends closed fuel (by omega))]
  rfl

theorem statementGiven_function {name opener closer opening closing : Token} {ps : List Parameter}
    (starts : word.kind = .funcKeyword) (named : name.kind = .identifier)
    (opens : opener.kind = .openParen) (parameters : ReadsParameters ts ps)
    (closes : closer.kind = .closeParen) (begins : opening.kind = .openCurly)
    (given : BlockGiven n us body m) (ends : closing.kind = .closeCurly) :
    StatementGiven n (word :: name :: opener :: ts ++ closer :: opening :: us ++ [closing])
      (.function ⟨word.span.start, closing.span.stop⟩ name.value name.span ps body) m := by
  intro p rest closed
  have found : standard.statement word.kind = some .function := by rw [starts]; rfl
  have shape : word :: name :: opener :: ts ++ closer :: opening :: us ++ [closing] ++ rest =
      word :: name :: opener :: (ts ++ closer :: opening :: (us ++ closing :: rest)) := by simp
  have reading : Gives (statementBy standard · .function)
      (place p (word :: name :: opener :: (ts ++ closer :: opening :: (us ++ closing :: rest))) n)
      (ts.length + 3 * us.length + 3 + 1)
      (.ok (.function ⟨word.span.start, closing.span.stop⟩ name.value name.span ps body)
        (place (some closing.span.stop) rest m)) := by
    refine gives_succ fun fuel enough => ?_
    simp only [statementBy]
    rw [bind_run (advance_run (by simp)), bind_run (expectNamed_run named (by simp)),
      bind_run (expect_run opens (by simp)),
      bind_run (parametersUntil_gives parameters closes fuel (by omega)),
      bind_run (expect_run closes (by simp)), bind_run (expect_run begins (by simp)),
      bind_run (given ends closed fuel (by omega)), bind_run (expect_run ends closed.ne_nil)]
    rfl
  rw [shape, lastStop_append]
  exact (statement_by found reading).mono
    (by simp only [List.length_append, List.length_cons]; omega)

theorem blockGiven_none : BlockGiven n [] [] n := by
  intro p rest closing ends closed
  refine (gives_succ (c := 0) fun fuel _ => ?_).mono (by omega)
  simp only [block]
  rw [List.nil_append, bind_run kind_run, place_kind, ends]
  rfl

theorem blockGiven_more (reads : ReadsStatement n ts stmt m) (first : StatementGiven n ts stmt m)
    (others : BlockGiven m us body k) : BlockGiven n (ts ++ us) (stmt :: body) k := by
  intro p rest closing ends closed
  obtain ⟨t, vs, same, notClosing, notEnd⟩ := reads.starts
  have filled : 0 < ts.length := by simp [same]
  refine Gives.mono (c := 3 * ts.length + 3 * us.length + 2 + 1) (gives_succ fun fuel enough => ?_)
    (by simp only [List.length_append]; omega)
  have closedRest : Closed (us ++ closing :: rest) := closed.cons.append
  have kind : (place p (ts ++ (us ++ closing :: rest)) n).cursor.kind = t.kind := by
    rw [same]
    rfl
  rw [List.append_assoc, lastStop_append]
  simp only [block]
  rw [bind_run kind_run, kind]
  split
  · contradiction
  · contradiction
  · rw [bind_run (first closedRest fuel (by omega)), bind_run (others ends closed fuel (by omega))]
    rfl

mutual

theorem ReadsStatement.given : ∀ {n ts stmt m}, ReadsStatement n ts stmt m →
    StatementGiven n ts stmt m
  | _, _, _, _, .declaration starts names ends => statementGiven_declaration starts names ends
  | _, _, _, _, .assignment named assigns value ends =>
    statementGiven_assignment named assigns value ends
  | _, _, _, _, .function starts named opens parameters closes begins statements ends =>
    statementGiven_function starts named opens parameters closes begins statements.given ends
  | _, _, _, _, .output starts value ends => statementGiven_output starts value ends
  | _, _, _, _, .throw starts value ends => statementGiven_throw starts value ends
  | _, _, _, _, .expression value ends => statementGiven_expression value ends

theorem ReadsBody.given : ∀ {n ts body m}, ReadsBody n ts body m → BlockGiven n ts body m
  | _, _, _, _, .none => blockGiven_none
  | _, _, _, _, .more first rest => blockGiven_more first first.given rest.given

end

theorem ReadsBody.statements {ender : Token} (reads : ReadsBody n ts body m)
    (ends : ender.kind = .eof) (closed : Closed (ender :: rest)) :
    Gives (statements standard ·) (place p (ts ++ ender :: rest) n) (3 * ts.length + 3)
      (.ok body (place (lastStop p ts) (ender :: rest) m)) := by
  induction body generalizing n ts p with
  | nil =>
    cases reads
    refine (gives_succ (c := 0) fun fuel _ => ?_).mono (by omega)
    simp only [Parse.statements]
    rw [List.nil_append, bind_run cursor_run]
    simp only [Cursor.atEnd, place_kind, ends]
    rfl
  | cons stmt body ih =>
    cases reads with | @more ts us _ _ _ k _ first others =>
    obtain ⟨t, vs, same, -, notEnd⟩ := first.starts
    have filled : 0 < ts.length := by simp [same]
    refine Gives.mono (c := 3 * ts.length + 3 * us.length + 2 + 1)
      (gives_succ fun fuel enough => ?_) (by simp only [List.length_append]; omega)
    have closedRest : Closed (us ++ ender :: rest) := closed.append
    have going : (place p (ts ++ (us ++ ender :: rest)) n).cursor.atEnd = false := by
      rw [same]
      simpa [Cursor.atEnd, place, Cursor.kind] using notEnd
    rw [List.append_assoc, lastStop_append]
    simp only [Parse.statements]
    rw [bind_run cursor_run]
    simp only [going, Bool.false_eq_true, reduceIte]
    rw [bind_run (first.given closedRest fuel (by omega)),
      bind_run (ih others fuel (by omega))]
    rfl

theorem ofTokens_of_readsBody {ender : Token} (reads : ReadsBody 0 ts body m)
    (ends : ender.kind = .eof) :
    ∃ span, Program.ofTokens (ts ++ [ender]) = .ok ⟨body, span⟩ := by
  have closed : Closed [ender] := by simp [Closed, ends]
  have run := reads.statements (p := none) ends closed (8 * ((ts ++ [ender]).length + 3))
    (by rw [List.length_append]; omega)
  refine ⟨⟨(place none (ts ++ [ender]) 0).cursor.position, ender.span.start⟩, ?_⟩
  unfold Program.ofTokens
  rw [program_run closed.append, run]
  rfl

end Scriptlet
