import Scriptlet.Grammar.Statement

/-!
What the smallest parsing steps do to a state. A state is put down as the tokens that are left,
with the end of the last token passed and the next free number; a list of tokens that can be read
safely ends in an end mark.
-/

namespace Scriptlet

-- The tokens end in an end mark.
def Closed (tokens : List Token) : Prop := tokens.getLast?.map (·.kind) = some .eof

namespace Closed

variable {t : Token} {ts rest : List Token}

theorem ne_nil (closed : Closed ts) : ts ≠ [] := by
  rintro rfl
  simp [Closed] at closed

theorem tail (closed : Closed (t :: rest)) (more : t.kind ≠ .eof) : Closed rest := by
  cases rest with
  | nil => exact absurd (by simpa [Closed] using closed) more
  | cons u us => simpa [Closed, List.getLast?_cons_cons] using closed

theorem append (closed : Closed rest) : Closed (ts ++ rest) := by
  have more := closed.ne_nil
  simpa [Closed, List.getLast?_append, more] using closed

theorem cons (closed : Closed rest) : Closed (t :: rest) := @append [t] rest closed

theorem closed_eq (closed : Closed ts) : Cursor.closed ts = ts := by
  unfold Cursor.closed
  cases found : ts.getLast? with
  | none => simp [Closed, found] at closed
  | some last =>
    have ends : last.kind = .eof := by simpa [Closed, found] using closed
    simp [ends]

end Closed

namespace Cursor

theorem closed_closed (tokens : List Token) : Closed (closed tokens) := by
  unfold closed
  split
  · rfl
  · rename_i last found
    split
    · rename_i ended
      simp [Closed, found, ended]
    · simp [Closed, Token.eof]

end Cursor

namespace Parse

-- The end of the last token of a stretch; `p` if there is none.
def lastStop (p : Option Position) (ts : List Token) : Option Position :=
  ts.foldl (fun _ t => some t.span.stop) p

@[simp] theorem lastStop_nil (p : Option Position) : lastStop p [] = p := rfl

@[simp] theorem lastStop_cons (p : Option Position) (t : Token) (ts : List Token) :
    lastStop p (t :: ts) = lastStop (some t.span.stop) ts := rfl

@[simp] theorem lastStop_append (p : Option Position) (ts us : List Token) :
    lastStop p (ts ++ us) = lastStop (lastStop p ts) us := by simp [lastStop, List.foldl_append]

-- The state with these tokens left and this number free.
def place (p : Option Position) (tokens : List Token) (n : NodeId) : ParseState :=
  match tokens with
  | [] => ⟨⟨p, Token.eof .null, []⟩, n⟩
  | t :: rest => ⟨⟨p, t, rest⟩, n⟩

theorem start_eq_place (tokens : List Token) :
    start tokens = place none (Cursor.closed tokens) 0 := by
  unfold start Cursor.ofTokens
  cases Cursor.closed tokens <;> rfl

variable {α β : Type} {p : Option Position} {t : Token} {ts rest tokens : List Token}
  {n : NodeId} {s s' : ParseState}

theorem bind_run {x : Parse α} {f : α → Parse β} {a : α} (ran : x.run s = .ok a s') :
    (x >>= f).run s = (f a).run s' := by
  rw [EStateM.run_bind, ran]

theorem bind_ok {x : Parse α} {f : α → Parse β} {b : β} :
    (x >>= f).run s = .ok b s' ↔
      ∃ a middle, x.run s = .ok a middle ∧ (f a).run middle = .ok b s' := by
  rw [EStateM.run_bind]
  cases x.run s with
  | ok a middle =>
    constructor
    · intro ran
      exact ⟨a, middle, rfl, ran⟩
    · rintro ⟨_, _, same, ran⟩
      cases same
      exact ran
  | error stop middle => simp

@[simp] theorem throw_run {stop : Stop} : (throw stop : Parse α).run s = .error stop s := rfl

@[simp] theorem exhausted_run : (exhausted : Parse α).run s = .error .exhausted s := rfl

@[simp] theorem refuse_run :
    (refuse t : Parse α).run s = .error (.fault ⟨.unexpectedToken t.value, t.span.start⟩) s := rfl

@[simp] theorem fail_run {cause : FaultCause} {position : Position} :
    (fail cause position : Parse α).run s = .error (.fault ⟨cause, position⟩) s := rfl

@[simp] theorem failWith_run {message : String} :
    (failWith message : Parse α).run s = .error (.fault (unexpected message s.cursor)) s := rfl

@[simp] theorem cursor_run : cursor.run s = .ok s.cursor s := rfl

@[simp] theorem current_run : current.run s = .ok s.cursor.current s := rfl

@[simp] theorem kind_run : kind.run s = .ok s.cursor.kind s := rfl

@[simp] theorem place_current : (place p (t :: rest) n).cursor.current = t := rfl

@[simp] theorem place_kind : (place p (t :: rest) n).cursor.kind = t.kind := rfl

@[simp] theorem newNode_run {span : Span} :
    (newNode span).run (place p tokens n) = .ok ⟨n, span⟩ (place p tokens (n + 1)) := by
  cases tokens <;> rfl

theorem advance_run (more : rest ≠ []) :
    advance.run (place p (t :: rest) n) = .ok t (place (some t.span.stop) rest n) := by
  cases rest with
  | nil => exact absurd rfl more
  | cons u us => rfl

theorem expectOr_run {kind : TokenKind} {otherwise : Cursor → Fault} (fits : t.kind = kind)
    (more : rest ≠ []) :
    (expectOr kind otherwise).run (place p (t :: rest) n) =
      .ok t (place (some t.span.stop) rest n) := by
  unfold expectOr
  simp [fits, advance_run more]

theorem expect_run {kind : TokenKind} (fits : t.kind = kind) (more : rest ≠ []) :
    (expect kind).run (place p (t :: rest) n) = .ok t (place (some t.span.stop) rest n) :=
  expectOr_run fits more

theorem expectNamed_run {kind : TokenKind} {message : String} (fits : t.kind = kind)
    (more : rest ≠ []) :
    (expectNamed kind message).run (place p (t :: rest) n) =
      .ok t (place (some t.span.stop) rest n) := expectOr_run fits more

theorem accept_run {kind : TokenKind} (fits : t.kind = kind) (more : rest ≠ []) :
    (accept kind).run (place p (t :: rest) n) = .ok true (place (some t.span.stop) rest n) := by
  unfold accept
  simp only [EStateM.run_bind, kind_run, place_kind, fits, reduceIte, advance_run more,
    EStateM.run_pure]

theorem accept_run_other {kind : TokenKind} (other : t.kind ≠ kind) :
    (accept kind).run (place p (t :: rest) n) = .ok false (place p (t :: rest) n) := by
  unfold accept
  simp [other]

-- The part of a declarator after its name.
def initializer (g : Grammar) (fuel : Nat) : Parse (Option Expr) := do
  if ← accept .assignment then some <$> expression g fuel .default else pure none

theorem declarators_succ (g : Grammar) (fuel : Nat) :
    declarators g (fuel + 1) = (do
      let name ← expectNamed .identifier "expected identifier during variable declaration"
      let value ← initializer g fuel
      let c ← cursor
      let declarator : Declarator := ⟨name.value, value, ⟨name.span.start, c.previousEnd⟩⟩
      if ← accept .comma then return declarator :: (← declarators g fuel)
      else return [declarator]) := by
  simp only [declarators, initializer, bind_assoc]
  congr
  funext name
  congr
  funext assigned
  split <;> rfl

-- The program of a body that was read from this position on.
def programFrom (first : Position) :
    EStateM.Result Stop ParseState (List Stmt) → EStateM.Result Stop ParseState Program
  | .ok body s => .ok ⟨body, ⟨first, s.cursor.position⟩⟩ s
  | .error stop s => .error stop s

-- Reading a program is reading its statements with a budget of eight steps for each token.
theorem program_run (closed : Closed tokens) :
    program.run (start tokens) = programFrom (place none tokens 0).cursor.position
      ((statements .standard (8 * (tokens.length + 3))).run (place none tokens 0)) := by
  have budgeted : budget (place none tokens 0).cursor = 8 * (tokens.length + 3) := by
    cases tokens with
    | nil => exact absurd rfl closed.ne_nil
    | cons t rest => rfl
  rw [start_eq_place, closed.closed_eq]
  unfold program withBudget
  rw [bind_run cursor_run, bind_assoc, bind_run cursor_run, budgeted, EStateM.run_bind]
  cases (statements .standard (8 * (tokens.length + 3))).run (place none tokens 0) <;> rfl

theorem advance_ok (closed : Closed (t :: rest)) (more : t.kind ≠ .eof) {taken : Token}
    (ran : advance.run (place p (t :: rest) n) = .ok taken s') :
    taken = t ∧ s' = place (some t.span.stop) rest n ∧ Closed rest := by
  have next := closed.tail more
  rw [advance_run next.ne_nil] at ran
  cases ran
  exact ⟨rfl, rfl, next⟩

theorem expectOr_ok {kind : TokenKind} {otherwise : Cursor → Fault} (closed : Closed tokens)
    (more : kind ≠ .eof) (ran : (expectOr kind otherwise).run (place p tokens n) = .ok t s') :
    ∃ rest, tokens = t :: rest ∧ t.kind = kind ∧ s' = place (some t.span.stop) rest n ∧
      Closed rest := by
  match tokens, closed.ne_nil with
  | u :: rest, _ =>
    unfold expectOr at ran
    by_cases fits : u.kind = kind
    · have next := closed.tail (fits ▸ more)
      simp [fits, advance_run next.ne_nil] at ran
      obtain ⟨rfl, rfl⟩ := ran
      exact ⟨rest, rfl, fits, rfl, next⟩
    · simp [fits] at ran

theorem accept_ok {kind : TokenKind} {taken : Bool} (closed : Closed tokens) (more : kind ≠ .eof)
    (ran : (accept kind).run (place p tokens n) = .ok taken s') :
    (taken = true ∧ ∃ t rest, tokens = t :: rest ∧ t.kind = kind ∧
      s' = place (some t.span.stop) rest n ∧ Closed rest) ∨
    (taken = false ∧ s' = place p tokens n) := by
  match tokens, closed.ne_nil with
  | u :: rest, _ =>
    by_cases fits : u.kind = kind
    · have next := closed.tail (fits ▸ more)
      rw [accept_run fits next.ne_nil] at ran
      cases ran
      exact .inl ⟨rfl, u, rest, rfl, fits, rfl, next⟩
    · rw [accept_run_other fits] at ran
      cases ran
      exact .inr ⟨rfl, rfl⟩

end Parse

end Scriptlet
