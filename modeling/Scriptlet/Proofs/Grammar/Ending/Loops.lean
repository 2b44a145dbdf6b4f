import Scriptlet.Proofs.Grammar.Steps

/-!
What it means that a parsing step comes to an end. Every step has a budget, so it is two things:
the cursor never goes back and moves on where it has to, and from some budget on the outcome is
always the same and is never that the budget ran out. A loop comes to an end when none of its
turns goes on without having passed a token.

The tokens may be of any kind and in any order; only the last one has to be an end mark.
-/

namespace Scriptlet

-- The tokens that are left, the current one first.
def ParseState.tokens (s : ParseState) : List Token := s.cursor.current :: s.cursor.ahead

theorem Closed.suffix {ts us : List Token} (closed : Closed ts) (part : us <:+ ts)
    (some : us ≠ []) : Closed us := by
  obtain ⟨before, rfl⟩ := part
  simpa [Closed, List.getLast?_append, some] using closed

namespace Parse

variable {α β : Type} {s s' : ParseState} {need k : Nat}

-- At least one token has been passed.
def Advanced (s s' : ParseState) : Prop := s'.tokens.length < s.tokens.length

-- At most `k` tokens are left, and the last of them is an end mark.
structure Within (k : Nat) (s : ParseState) : Prop where
  closed : Closed s.tokens
  short : s.tokens.length ≤ k

namespace Within

theorem pos (within : Within k s) : 0 < k := Nat.lt_of_lt_of_le (Nat.succ_pos _) within.short

theorem onward (within : Within k s) (onward : s'.tokens <:+ s.tokens) : Within k s' :=
  ⟨within.closed.suffix onward (List.cons_ne_nil _ _),
    Nat.le_trans onward.length_le within.short⟩

theorem advanced (within : Within k s) (onward : s'.tokens <:+ s.tokens)
    (advanced : Advanced s s') : Within (k - 1) s' :=
  ⟨(within.onward onward).closed, Nat.le_sub_one_of_lt (Nat.lt_of_lt_of_le advanced within.short)⟩

end Within

-- The cursor is still in the list and has not gone back, and a success satisfies `post`.
def Leads (s : ParseState) (post : α → ParseState → Prop) :
    EStateM.Result Stop ParseState α → Prop
  | .ok a s' => s'.tokens <:+ s.tokens ∧ post a s'
  | .error _ s' => s'.tokens <:+ s.tokens

-- The budget has not run out.
def Finished : EStateM.Result Stop ParseState α → Prop
  | .ok _ _ => True
  | .error stop _ => stop ≠ .exhausted

-- Any budget leads on, and all budgets from `need` on lead to one and the same end.
structure Ends (step : Nat → Parse α) (need : Nat) (s : ParseState)
    (post : α → ParseState → Prop) : Prop where
  leads : ∀ fuel, Leads s post ((step fuel).run s)
  decided : ∃ result, Finished result ∧ ∀ fuel, need ≤ fuel → (step fuel).run s = result

theorem Leads.trans {post : α → ParseState → Prop} {result : EStateM.Result Stop ParseState α}
    (onward : s'.tokens <:+ s.tokens) (leads : Leads s' post result) : Leads s post result := by
  cases result with
  | ok a last => exact ⟨leads.1.trans onward, leads.2⟩
  | error stop last => exact List.IsSuffix.trans leads onward

theorem Leads.mono {post weaker : α → ParseState → Prop}
    {result : EStateM.Result Stop ParseState α} (leads : Leads s post result)
    (implies : ∀ a s', s'.tokens <:+ s.tokens → post a s' → weaker a s') :
    Leads s weaker result := by
  cases result with
  | ok a last => exact ⟨leads.1, implies a last leads.1 leads.2⟩
  | error stop last => exact leads

namespace Ends

variable {post weaker : α → ParseState → Prop} {step : Nat → Parse α}

theorem mono (ends : Ends step need s post) {more : Nat} (enough : need ≤ more)
    (implies : ∀ a s', s'.tokens <:+ s.tokens → post a s' → weaker a s') :
    Ends step more s weaker := by
  obtain ⟨result, finished, same⟩ := ends.decided
  exact ⟨fun fuel => (ends.leads fuel).mono implies,
    result, finished, fun fuel bound => same fuel (Nat.le_trans enough bound)⟩

theorem weaken (ends : Ends step need s post) {more : Nat} (enough : need ≤ more) :
    Ends step more s post := ends.mono enough fun _ _ _ holds => holds

theorem of_run {x : Parse α} (leads : Leads s post (x.run s)) (finished : Finished (x.run s)) :
    Ends (fun _ => x) need s post :=
  ⟨fun _ => leads, _, finished, fun _ _ => rfl⟩

theorem of_pure {a : α} (holds : post a s) : Ends (fun _ => pure a) need s post :=
  of_run ⟨List.suffix_rfl, holds⟩ trivial

theorem of_fault {x : Parse α} {fault : Fault} (failed : x.run s = .error (.fault fault) s) :
    Ends (fun _ => x) need s post := by
  refine of_run ?_ ?_ <;> rw [failed]
  · exact List.suffix_rfl
  · exact Stop.noConfusion

theorem fix {fuel more : Nat} (ends : Ends step need s post) (enough : need ≤ fuel) :
    Ends (fun _ => step fuel) more s post := by
  obtain ⟨result, finished, same⟩ := ends.decided
  exact of_run (ends.leads fuel) (same fuel enough ▸ finished)

theorem look {x : Parse α} {next : Nat → α → Parse β} {a : α} {post : β → ParseState → Prop}
    (looked : x.run s = .ok a s) (ends : Ends (fun fuel => next fuel a) need s post) :
    Ends (fun fuel => x >>= next fuel) need s post := by
  have same fuel : (x >>= next fuel).run s = (next fuel a).run s := bind_run looked
  refine ⟨fun fuel => ?_, ?_⟩
  · rw [same]
    exact ends.leads fuel
  · obtain ⟨result, finished, settled⟩ := ends.decided
    exact ⟨result, finished, fun fuel enough => (same fuel).trans (settled fuel enough)⟩

theorem bind {next : Nat → α → Parse β} {last : β → ParseState → Prop}
    (first : Ends step need s post)
    (goes : ∀ a s', s'.tokens <:+ s.tokens → post a s' →
      Ends (fun fuel => next fuel a) need s' last) :
    Ends (fun fuel => step fuel >>= next fuel) need s last := by
  constructor
  · intro fuel
    have leads := first.leads fuel
    rw [EStateM.run_bind]
    cases ran : (step fuel).run s with
    | ok a s' =>
      rw [ran] at leads
      exact ((goes a s' leads.1 leads.2).leads fuel).trans leads.1
    | error stop s' =>
      rw [ran] at leads
      exact leads
  · obtain ⟨result, finished, same⟩ := first.decided
    cases result with
    | ok a s' =>
      have leads := first.leads need
      rw [same need (Nat.le_refl need)] at leads
      obtain ⟨result, finished, settled⟩ := (goes a s' leads.1 leads.2).decided
      exact ⟨result, finished,
        fun fuel enough => (bind_run (same fuel enough)).trans (settled fuel enough)⟩
    | error stop s' =>
      exact ⟨.error stop s', finished,
        fun fuel enough => by rw [EStateM.run_bind, same fuel enough]⟩

theorem bind_within {next : Nat → α → Parse β} {last : β → ParseState → Prop}
    (within : Within k s) (first : Ends step need s post)
    (goes : ∀ a s', Within k s' → Ends (fun fuel => next fuel a) need s' last) :
    Ends (fun fuel => step fuel >>= next fuel) need s last :=
  first.bind fun a s' onward _ => goes a s' (within.onward onward)

theorem bind_advanced {next : Nat → α → Parse β} (within : Within k s)
    (first : Ends step need s fun _ s' => Advanced s s')
    (goes : ∀ a s', Within (k - 1) s' →
      Ends (fun fuel => next fuel a) need s' fun _ _ => True) :
    Ends (fun fuel => step fuel >>= next fuel) need s fun _ s' => Advanced s s' := by
  refine first.bind fun a s' onward advanced => ?_
  exact (goes a s' (within.advanced onward advanced)).mono (Nat.le_refl _)
    fun _ _ later _ => Nat.lt_of_le_of_lt later.length_le advanced

theorem spend (zero : step 0 = exhausted) {less : Nat}
    (ends : Ends (fun fuel => step (fuel + 1)) less s post) (enough : less < need) :
    Ends step need s post := by
  refine ⟨fun fuel => ?_, ?_⟩
  · cases fuel with
    | zero =>
      rw [zero]
      exact List.suffix_rfl
    | succ fuel => exact ends.leads fuel
  · obtain ⟨result, finished, same⟩ := ends.decided
    refine ⟨result, finished, fun fuel bound => ?_⟩
    obtain ⟨fuel, rfl⟩ := Nat.exists_eq_succ_of_ne_zero (by omega : fuel ≠ 0)
    exact same fuel (by omega)

end Ends

theorem advanced_of_tokens (passed : s'.tokens = s.cursor.ahead) :
    s'.tokens <:+ s.tokens ∧ Advanced s s' := by
  unfold Advanced
  rw [passed]
  exact ⟨List.suffix_cons _ _, Nat.lt_succ_self _⟩

theorem advance_ends (within : Within k s) (more : s.cursor.kind ≠ .eof) :
    Ends (fun _ => advance) need s fun _ s' => Advanced s s' := by
  obtain ⟨token, rest, ahead⟩ := List.exists_cons_of_ne_nil (within.closed.tail more).ne_nil
  refine .of_run (advanced_of_tokens ?_) trivial
  rw [Cursor.advance, ahead]
  rfl

theorem expectOr_ends {kind : TokenKind} {otherwise : Cursor → Fault} (within : Within k s)
    (other : kind ≠ .eof) :
    Ends (fun _ => expectOr kind otherwise) need s fun _ s' => Advanced s s' := by
  refine .look cursor_run ?_
  by_cases fits : s.cursor.kind = kind
  · simp only [fits, reduceIte]
    exact advance_ends within (fits ▸ other)
  · simp only [fits, reduceIte]
    exact .of_fault rfl

theorem accept_ends {kind : TokenKind} (within : Within k s) (other : kind ≠ .eof) :
    Ends (fun _ => accept kind) need s fun taken s' => taken = true → Advanced s s' := by
  refine .look kind_run ?_
  by_cases fits : s.cursor.kind = kind
  · simp only [fits, reduceIte]
    refine (advance_ends within (fits ▸ other)).bind fun _ s' _ advanced => ?_
    exact .of_pure fun _ => advanced
  · simp only [fits, reduceIte]
    exact .of_pure fun taken => by cases taken

theorem node_ends {span : Span} {build : Node → α} :
    Ends (fun _ => do return build (← newNode span)) need s fun _ _ => True :=
  .of_run ⟨List.suffix_rfl, trivial⟩ trivial

-- What one turn of a loop comes to: the end, or a state to go on from and what is then done
-- with the result of the rest.
inductive Turn (σ β : Type) where
  | done (result : β)
  | again (state : σ) (wrap : β → β)

namespace Turn

variable {σ : Type}

def goesOn : Turn σ β → Bool
  | done _ => false
  | again _ _ => true

def finish (rest : σ → Parse β) : Turn σ β → Parse β
  | done result => pure result
  | again state wrap => wrap <$> rest state

end Turn

-- A recursion over the budget that is one turn after another.
structure Loop (σ β : Type) where
  run : Nat → σ → Parse β
  turn : Nat → σ → Parse (Turn σ β)
  zero : ∀ state, run 0 state = exhausted
  succ : ∀ fuel state, run (fuel + 1) state = turn fuel state >>= Turn.finish (run fuel)

namespace Loop

variable {σ : Type}

-- Every turn comes to an end, and goes on only when a token has been passed.
def Advances (loop : Loop σ β) (need : Nat) (s : ParseState) : Prop :=
  ∀ state, Ends (fun fuel => loop.turn fuel state) need s fun turn s' =>
    turn.goesOn = true → Advanced s s'

-- Such a loop comes to an end. The induction is on the number of tokens that are left; each turn
-- has one step of the budget less than the one before, and needs less.
theorem ends {loop : Loop σ β} {need : Nat → Nat} (grows : ∀ j, need j < need (j + 1))
    (advances : ∀ j ≤ k, ∀ s, Within j s → loop.Advances (need j) s)
    (state : σ) (within : Within k s) :
    Ends (fun fuel => loop.run fuel state) (need k + 1) s fun _ _ => True := by
  induction k generalizing s state with
  | zero => exact absurd within.pos (Nat.lt_irrefl 0)
  | succ k ih =>
    refine .spend (loop.zero state) ?_ (Nat.lt_succ_self _)
    simp only [loop.succ]
    refine (advances _ (Nat.le_refl _) s within state).bind fun turn s' onward advanced => ?_
    cases turn with
    | done result => exact .of_pure trivial
    | again state wrap =>
      have rest := ih (fun j le => advances j (Nat.le_succ_of_le le)) state
        (within.advanced onward (advanced rfl))
      simp only [Turn.finish, map_eq_pure_bind]
      exact (rest.mono (grows k) fun _ _ _ _ => trivial).bind fun _ _ _ _ => .of_pure trivial

-- Elements with commas between them.
def separated (element : Nat → Parse α) (run : Nat → Parse (List α)) (zero : run 0 = exhausted)
    (succ : ∀ fuel, run (fuel + 1) = do
      let a ← element fuel
      if ← accept .comma then return a :: (← run fuel)
      else return [a]) : Loop Unit (List α) where
  run fuel _ := run fuel
  turn fuel _ := do
    let a ← element fuel
    if ← accept .comma then return .again () (a :: ·)
    else return .done [a]
  zero _ := zero
  succ fuel _ := by
    rw [succ, bind_assoc]
    congr
    funext a
    rw [bind_assoc]
    congr
    funext taken
    cases taken <;> rfl

theorem separated_advances {element : Nat → Parse α} {run : Nat → Parse (List α)}
    {zero : run 0 = exhausted} {succ} (within : Within k s)
    (ends : Ends element need s fun _ s' => Advanced s s') :
    (separated element run zero succ).Advances need s := by
  intro _
  refine (ends.bind_advanced within fun a s' within => ?_).mono (Nat.le_refl _)
    fun _ _ _ advanced _ => advanced
  refine (accept_ends within (by decide)).bind fun taken s' _ _ => ?_
  cases taken <;> exact .of_pure trivial

-- Elements for as long as there is one.
def repeated (more : Parse Bool) (element : Nat → Parse α) (run : Nat → Parse (List α))
    (zero : run 0 = exhausted)
    (succ : ∀ fuel, run (fuel + 1) = do
      if ← more then return (← element fuel) :: (← run fuel)
      else return []) : Loop Unit (List α) where
  run fuel _ := run fuel
  turn fuel _ := do
    if ← more then return .again () ((← element fuel) :: ·)
    else return .done []
  zero _ := zero
  succ fuel _ := by
    rw [succ, bind_assoc]
    congr
    funext goes
    cases goes with
    | false => rfl
    | true =>
      simp only [reduceIte, bind_assoc, pure_bind]
      rfl

theorem repeated_advances {more : Parse Bool} {element : Nat → Parse α}
    {run : Nat → Parse (List α)} {zero : run 0 = exhausted} {succ}
    (looks : Ends (fun _ => more) need s fun _ s' => s' = s)
    (ends : Ends element need s fun _ s' => Advanced s s') :
    (repeated more element run zero succ).Advances need s := by
  intro _
  refine looks.bind fun goes s' _ same => ?_
  subst same
  cases goes with
  | false => exact .of_pure fun again => by cases again
  | true => exact ends.bind fun _ _ _ advanced => .of_pure fun _ => advanced

end Loop

end Parse

end Scriptlet
