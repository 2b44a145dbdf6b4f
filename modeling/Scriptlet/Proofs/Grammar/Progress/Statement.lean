import Scriptlet.Proofs.Grammar.Progress.Expression

namespace Scriptlet

open Parse
open Grammar (standard)
open Token (Ended)

variable {bound : Nat} {t : Token} {tokens us : List Token}

theorem before_progress (close : TokenKind) (more : close ≠ .eof) (ended : Ended tokens) :
    Progress (fun ts _ => ∃ us e closer, ts = us ++ [closer] ∧ closer.kind = close ∧
      Spells .disjunction us e) (BreaksBefore close) tokens :=
  Settled.before (settled tokens.length) close more ended (Nat.le_refl _)

-- The tokens start with declarators and the semicolon after them.
def EndsDeclarators (ts : List Token) : Prop :=
  ∃ us ds stop, ts = us ++ [stop] ∧ stop.kind = .semicolon ∧ SpellsDeclarators us ds

theorem declarators_after {ts rest : List Token} {d : Declarator} (item : SpellsDeclarator ts d)
    (ended : Ended (t :: rest))
    (others : t.kind = .comma → Ended rest →
      Progress (fun us _ => EndsDeclarators us) BreaksDeclarators rest)
    (refused : t.kind ≠ .comma → t.kind ≠ .semicolon → BreaksDeclarators ts t) :
    Progress (fun us _ => EndsDeclarators (ts ++ us))
      (fun us bad => BreaksDeclarators (ts ++ us) bad) (t :: rest) := by
  by_cases separated : t.kind = .comma
  · have next := ended.tail (by simp [separated])
    apply Progress.after [t]
    apply (others separated next.2).mono
    · intro us bad _ _ breaks
      exact .more item separated breaks
    · rintro us _ ⟨vs, ds, stop, rfl, ends, spells⟩
      exact ⟨ts ++ t :: vs, d :: ds, stop, by simp, ends, .more item separated spells⟩
  · by_cases ends : t.kind = .semicolon
    · have next := ended.tail (by simp [ends])
      exact .of_done [t] next.2 ⟨ts, [d], t, rfl, ends, .last item⟩
    · apply Progress.of_broken []
      rw [List.append_nil]
      exact refused separated ends

theorem declarators_progress (ended : Ended tokens) :
    Progress (fun ts _ => EndsDeclarators ts) BreaksDeclarators tokens := by
  induction length : tokens.length using Nat.strongRecOn generalizing tokens with
  | ind length ih =>
    subst length
    obtain ⟨name, us, rfl⟩ := ended.exists_cons
    by_cases named : name.kind = .identifier
    · have nameEnded := (ended.tail (by simp [named])).2
      obtain ⟨sign, vs, rfl⟩ := nameEnded.exists_cons
      by_cases assigns : sign.kind = .assignment
      · have valueEnded := (nameEnded.tail (by simp [assigns])).2
        apply Progress.after [name, sign]
        apply (@settled vs.length .default _ (by decide) valueEnded (Nat.le_refl _)).bind
        · intro us bad _ _ breaks
          exact .value named assigns breaks
        · rintro ts rest split ended ⟨e, spells, follows⟩
          obtain ⟨u, rest, rfl⟩ := ended.exists_cons
          have item : SpellsDeclarator (name :: sign :: ts) ⟨name.value, some e, default⟩ :=
            .initialized named assigns spells
          apply declarators_after item ended
          · intro _ others
            apply ih _ _ others rfl
            simp only [split, List.length_append, List.length_cons]
            omega
          · exact .unclosed named assigns spells (Nat.le_zero.1 follows)
      · have item : SpellsDeclarator [name] ⟨name.value, none, default⟩ := .bare named
        apply Progress.after [name]
        apply declarators_after item nameEnded
        · intro _ others
          exact ih _ (by simp only [List.length_cons]; omega) others rfl
        · exact .bare named assigns
    · exact .of_broken [] (.name named)

theorem parameters_progress (ended : Ended tokens) :
    Progress (fun ts _ => ∃ us ps closer, ts = us ++ [closer] ∧ closer.kind = .closeParen ∧
      SpellsParameters us ps ∧ ps ≠ []) BreaksParameters tokens := by
  induction length : tokens.length using Nat.strongRecOn generalizing tokens with
  | ind length ih =>
    subst length
    obtain ⟨name, us, rfl⟩ := ended.exists_cons
    by_cases named : name.kind = .identifier
    · have nameEnded := (ended.tail (by simp [named])).2
      obtain ⟨u, rest, rfl⟩ := nameEnded.exists_cons
      by_cases separated : u.kind = .comma
      · have next := (nameEnded.tail (by simp [separated])).2
        apply Progress.after [name, u]
        apply (ih _ (by simp only [List.length_cons]; omega) next rfl).mono
        · intro us bad _ _ breaks
          exact .more named separated breaks
        · rintro us _ ⟨vs, ps, closer, rfl, closes, spells, some⟩
          exact ⟨name :: u :: vs, ⟨name.value, default⟩ :: ps, closer, rfl, closes,
            .more named separated spells some, by simp⟩
      · by_cases closes : u.kind = .closeParen
        · have next := (nameEnded.tail (by simp [closes])).2
          exact .of_done [name, u] next ⟨[name], [⟨name.value, default⟩], u, rfl, closes,
            .last named, by simp⟩
        · exact .of_broken [name] (.unclosed named separated closes)
    · exact .of_broken [] (.name named)

theorem parametersUntil_progress (ended : Ended tokens) :
    Progress (fun ts _ => ∃ us ps closer, ts = us ++ [closer] ∧ closer.kind = .closeParen ∧
      SpellsParameters us ps)
      (fun us bad => BreaksParameters us bad ∧ (us.headD bad).kind ≠ .closeParen) tokens := by
  obtain ⟨u, rest, rfl⟩ := ended.exists_cons
  by_cases closes : u.kind = .closeParen
  · have next := ended.tail (by simp [closes])
    exact .of_done [u] next.2 ⟨[], [], u, rfl, closes, .none⟩
  · apply (parameters_progress ended).mono
    · intro us bad rest split breaks
      exact ⟨breaks, headD_of_split split ▸ closes⟩
    · rintro ts rest ⟨us, ps, closer, rfl, closes, spells, -⟩
      exact ⟨us, ps, closer, rfl, closes, spells⟩

theorem header_progress (ended : Ended tokens) :
    Progress (fun ts _ => SpellsHeader ts) BreaksHeader tokens := by
  obtain ⟨name, rest, rfl⟩ := ended.exists_cons
  by_cases named : name.kind = .identifier
  · have nameEnded := (ended.tail (by simp [named])).2
    obtain ⟨opener, rest, rfl⟩ := nameEnded.exists_cons
    by_cases opens : opener.kind = .openParen
    · have openerEnded := (nameEnded.tail (by simp [opens])).2
      apply Progress.after [name, opener]
      apply (parametersUntil_progress openerEnded).bind
      · rintro us bad _ _ ⟨breaks, filled⟩
        exact .parameters named opens breaks filled
      · rintro ts rest - ended ⟨us, ps, closer, rfl, closes, spells⟩
        obtain ⟨opening, rest, rfl⟩ := ended.exists_cons
        by_cases begins : opening.kind = .openCurly
        · have next := ended.tail (by simp [begins])
          apply Progress.of_done [opening] next.2
          have whole := SpellsHeader.intro named opens spells closes begins
          simpa using whole
        · apply Progress.of_broken []
          rw [List.append_nil]
          exact .opening named opens spells closes begins
    · exact .of_broken [name] (.opener named opens)
  · exact .of_broken [] (.name named)

theorem SpellsStatement.ne_nil {ts : List Token} {stmt : Stmt} (spells : SpellsStatement ts stmt) :
    ts ≠ [] := by
  cases spells <;> simp

theorem isAssignment_names {k : TokenKind} (assigns : k.isAssignment = true) :
    ∃ op, k.NamesAssignment op := by
  cases k with
  | assignment => exact ⟨_, .assign⟩
  | plusEquals => exact ⟨_, .add⟩
  | minusEquals => exact ⟨_, .subtract⟩
  | starEquals => exact ⟨_, .multiply⟩
  | slashEquals => exact ⟨_, .divide⟩
  | percentEquals => exact ⟨_, .modulo⟩
  | _ => cases assigns

theorem StartsAssignment.append {bad : Token} {rest : List Token}
    (starts : StartsAssignment (us ++ [bad])) : StartsAssignment (us ++ bad :: rest) := by
  rcases us with _ | ⟨u, _ | ⟨v, vs⟩⟩
  · exact starts.elim
  · exact starts
  · exact starts

-- The tokens start with a statement, or break off in one.
def StatementProgress (tokens : List Token) : Prop :=
  Progress (fun ts _ => ∃ stmt, SpellsStatement ts stmt) BreaksStatement tokens

-- The tokens start with statements and a token of this kind after them.
def BodyProgress (close : TokenKind) (tokens : List Token) : Prop :=
  Progress (fun ts rest => ∃ body t after, SpellsBody ts body ∧ rest = t :: after ∧ t.kind = close)
    (BreaksBody close) tokens

theorem declaration_progress {fixed : Bool} (starts : t.kind.NamesDeclaration fixed)
    (ended : Ended us) : StatementProgress (t :: us) := by
  apply Progress.after [t]
  apply (declarators_progress ended).mono
  · intro us bad _ _ breaks
    exact .declaration starts breaks
  · rintro ts _ ⟨vs, ds, stop, rfl, ends, spells⟩
    exact ⟨.declaration default fixed ds, .declaration starts spells ends⟩

theorem TakesValue.progress {front : List Token} (takes : TakesValue front)
    (breaks : ∀ {ts bad rest}, us = ts ++ bad :: rest → BreaksBefore .semicolon ts bad →
      BreaksStatement (front ++ ts) bad) (ended : Ended us) : StatementProgress (front ++ us) := by
  apply Progress.after front
  apply (before_progress .semicolon (by decide) ended).mono
  · exact breaks
  · rintro ts _ ⟨vs, e, stop, rfl, ends, spells⟩
    exact takes spells ends

theorem function_progress (bodies : ∀ {tokens}, Ended tokens → tokens.length ≤ bound →
      BodyProgress .closeCurly tokens) (starts : t.kind = .funcKeyword) (ended : Ended us)
    (short : us.length ≤ bound) : StatementProgress (t :: us) := by
  apply Progress.after [t]
  apply (header_progress ended).bind
  · intro us bad _ _ breaks
    exact .header starts breaks
  · intro ts rest split ended header
    have shorter : rest.length ≤ bound := by
      rw [split, List.length_append] at short
      omega
    apply (bodies ended shorter).bind
    · intro us bad _ _ breaks
      have whole := BreaksStatement.body starts header breaks
      exact whole
    · rintro us rest - ended ⟨body, closing, after, spells, rfl, closes⟩
      have next := ended.tail (by simp [closes])
      apply Progress.of_done [closing] next.2
      obtain ⟨stmt, whole⟩ := header.function starts spells closes
      exact ⟨stmt, by simpa using whole⟩

theorem assignment_progress (ended : Ended tokens) (starts : StartsAssignment tokens) :
    StatementProgress tokens := by
  rcases tokens with _ | ⟨name, _ | ⟨sign, us⟩⟩
  · exact starts.elim
  · exact starts.elim
  · obtain ⟨named, assigns⟩ := starts
    obtain ⟨op, assigns⟩ := isAssignment_names assigns
    have valueEnded := ((ended.tail (by simp [named])).2.tail (NamesAssignment.ne_eof assigns)).2
    apply (takesValue_assignment named assigns).progress _ valueEnded
    intro ts bad _ _ breaks
    exact .assignment named assigns breaks

theorem bare_progress (ended : Ended (t :: us)) (unruled : standard.statement t.kind = none)
    (plain : ¬ StartsAssignment (t :: us)) : StatementProgress (t :: us) := by
  apply takesValue_nil.progress _ ended
  intro ts bad rest split breaks
  exact .expression breaks (headD_of_split split ▸ unruled) fun starts =>
    plain (split ▸ starts.append)

theorem statement_progress (bodies : ∀ {tokens}, Ended tokens → tokens.length ≤ bound →
      BodyProgress .closeCurly tokens) (ended : Ended tokens) (short : tokens.length ≤ bound + 1) :
    StatementProgress tokens := by
  obtain ⟨t, us, rfl⟩ := ended.exists_cons
  cases found : standard.statement t.kind with
  | some rule =>
    have rest := (ended.tail (statement_ne_eof found)).2
    generalize kind : t.kind = k at found
    cases startsBy_of_statement found with
    | declaration starts => exact declaration_progress (kind ▸ starts) rest
    | function => exact function_progress bodies kind rest (Nat.le_of_succ_le_succ short)
    | output => exact (takesValue_output kind).progress (fun _ value => .output kind value) rest
    | throw => exact (takesValue_throw kind).progress (fun _ value => .throw kind value) rest
  | none =>
    by_cases starts : StartsAssignment (t :: us)
    · exact assignment_progress ended starts
    · exact bare_progress ended found starts

theorem body_progress_by (bodies : ∀ {tokens}, Ended tokens → tokens.length ≤ bound →
      BodyProgress .closeCurly tokens) (close : TokenKind) (ended : Ended tokens)
    (short : tokens.length ≤ bound + 1) : BodyProgress close tokens := by
  induction length : tokens.length using Nat.strongRecOn generalizing tokens with
  | ind length ih =>
    subst length
    obtain ⟨t, us, rfl⟩ := ended.exists_cons
    by_cases closes : t.kind = close
    · exact .of_done [] ended ⟨[], t, us, .none, rfl, closes⟩
    by_cases ends : t.kind = .eof
    · exact .of_broken [] (.unclosed ends fun same => closes (ends.trans same.symm))
    apply (statement_progress bodies ended short).bind
    · intro ts bad rest split breaks
      have first := headD_of_split split
      exact .here breaks (first ▸ closes) (first ▸ ends)
    · rintro ts rest split ended ⟨stmt, spells⟩
      have shorter : rest.length < (t :: us).length := by
        have := List.length_pos_iff.2 spells.ne_nil
        rw [split, List.length_append]
        omega
      apply (ih _ shorter ended (by omega) rfl).mono
      · intro us bad _ _ breaks
        exact .later spells breaks
      · rintro us last ⟨body, u, after, others, rfl, closes⟩
        exact ⟨stmt :: body, u, after, .more spells others, rfl, closes⟩

theorem bodies_progress (bound : Nat) : ∀ {tokens}, Ended tokens → tokens.length ≤ bound →
    BodyProgress .closeCurly tokens := by
  induction bound with
  | zero =>
    intro tokens ended short
    obtain ⟨t, us, rfl⟩ := ended.exists_cons
    simp at short
  | succ bound ih =>
    intro tokens ended short
    exact body_progress_by ih .closeCurly ended short

theorem body_progress (close : TokenKind) (ended : Ended tokens) : BodyProgress close tokens :=
  body_progress_by (bodies_progress tokens.length) close ended (Nat.le_succ _)

end Scriptlet
