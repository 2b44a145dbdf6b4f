import Scriptlet.Compile
import Scriptlet.Proofs.Grammar.Progress.Statement
import Scriptlet.Proofs.Grammar.Refusal.Statement
import Scriptlet.Proofs.Outcome

/-!
The fault of a source text that cannot be read stands at the first token that cannot be where it
is: the tokens before it start some program, and with it they start none.
-/

namespace Scriptlet

open Token (Ended)

namespace Token

-- Some source text has a token of this kind and value.
def Occurs (t : Token) : Prop :=
  ∃ source tokens other, ofSource source = .ok tokens ∧ other ∈ tokens ∧ other.kind = t.kind ∧
    other.value = t.value

-- Tokens such as source texts have them, with their only end mark at the end.
def Proper (tokens : List Token) : Prop :=
  (∀ t ∈ tokens, t.Occurs) ∧
    ∃ body stop, tokens = body ++ [stop] ∧ stop.kind = .eof ∧ ∀ t ∈ body, t.kind ≠ .eof

end Token

-- Some program starts with these tokens.
def Viable (before : List Token) : Prop :=
  ∃ rest program, Token.Proper (before ++ rest) ∧ Program.ofTokens (before ++ rest) = .ok program

theorem Closed.of_append {t : Token} {ts rest : List Token} (closed : Closed (ts ++ t :: rest)) :
    Closed (t :: rest) := by
  simpa [Closed, List.getLast?_append] using closed

namespace Token

variable {t : Token} {ts us rest tokens : List Token}

theorem Occurs.lexical (occurs : t.Occurs) (more : t.kind ≠ .eof) : t.Lexical := by
  obtain ⟨source, tokens, other, scanned, member, kind, value⟩ := occurs
  obtain ⟨body, stop, rfl, lexical⟩ := ofSource_ended scanned
  rcases List.mem_append.1 member with inside | last
  · exact (lexical other inside).congr kind value
  · cases List.mem_singleton.1 last
    exact absurd kind.symm more

theorem occurs_of_mem {source : String} (scanned : ofSource source = .ok tokens)
    (member : t ∈ tokens) : t.Occurs :=
  ⟨source, tokens, t, scanned, member, rfl, rfl⟩

-- All fillers, one after the other.
def fillerSource : String := "x()];\x7b\x7d"

theorem fillerSource_scanned : ∃ tokens, ofSource fillerSource = .ok tokens ∧
    ∀ kind ∈ fillerKinds, ∃ other ∈ tokens, other.kind = kind ∧
      other.value = (filler kind).value := by
  have found : ((ofSource fillerSource).toOption.any fun tokens =>
      fillerKinds.all fun kind => tokens.any fun other =>
        decide (other.kind = kind) && decide (other.value = (filler kind).value)) = true := by
    decide +kernel
  obtain ⟨tokens, scanned, all⟩ := ok_of_any found
  refine ⟨tokens, scanned, fun kind listed => ?_⟩
  obtain ⟨other, member, same⟩ := List.any_eq_true.1 (List.all_eq_true.1 all kind listed)
  obtain ⟨sameKind, sameValue⟩ := Bool.and_eq_true_iff.1 same
  exact ⟨other, member, of_decide_eq_true sameKind, of_decide_eq_true sameValue⟩

theorem filler_occurs {kind : TokenKind} (listed : kind ∈ fillerKinds) : (filler kind).Occurs := by
  obtain ⟨tokens, scanned, all⟩ := fillerSource_scanned
  obtain ⟨other, member, same⟩ := all kind listed
  exact ⟨fillerSource, tokens, other, scanned, member, same⟩

theorem eof_occurs (position : Position) : (eof position).Occurs := by
  obtain ⟨tokens, scanned, -⟩ := fillerSource_scanned
  obtain ⟨body, stop, rfl, -⟩ := ofSource_ended scanned
  exact ⟨fillerSource, _, eof stop, scanned, by simp, rfl, rfl⟩

theorem Ended.closed (ended : Ended tokens) : Closed tokens := by
  obtain ⟨body, stop, rfl, -⟩ := ended
  exact Closed.append rfl

theorem Ended.eof_last (ended : Ended (t :: rest)) (ends : t.kind = .eof) : rest = [] := by
  obtain ⟨body, stop, split, lexical⟩ := ended
  cases body with
  | nil => exact (List.cons.inj split).2
  | cons u body =>
    obtain ⟨rfl, -⟩ := List.cons.inj split
    exact absurd ends (lexical _ (by simp)).kind_ne_eof

theorem Ended.before (ended : Ended (ts ++ rest)) (more : rest ≠ []) : AllLexical ts := by
  induction ts with
  | nil => simp [AllLexical]
  | cons t ts ih =>
    have notLast : t.kind ≠ .eof := by
      intro ends
      have empty : ts ++ rest = [] := Ended.eof_last ended ends
      exact more (List.append_eq_nil_iff.1 empty).2
    obtain ⟨lexical, later⟩ := Ended.tail ended notLast
    exact List.forall_mem_cons.2 ⟨lexical, ih later⟩

theorem Proper.closed (proper : Proper (ts ++ t :: rest)) : Closed (t :: rest) := by
  obtain ⟨-, body, stop, split, ends, -⟩ := proper
  have closed : Closed (body ++ [stop]) := Closed.append (by simp [Closed, ends])
  rw [← split] at closed
  exact closed.of_append

end Token

variable {ts us : List Token}

theorem Filling.occur (filling : Filling us) : ∀ t ∈ us, t.Occurs := by
  intro t member
  obtain ⟨kind, listed, rfl⟩ := List.mem_map.1 (filling t member)
  exact Token.filler_occurs listed

theorem Filling.lexical (filling : Filling us) : AllLexical us := by
  intro t member
  refine (filling.occur t member).lexical ?_
  obtain ⟨kind, listed, rfl⟩ := List.mem_map.1 (filling t member)
  have marks : ∀ kind ∈ fillerKinds, kind ≠ .eof := by decide
  exact marks kind listed

theorem BreaksBody.viable {close : TokenKind} {bad : Token} (breaks : BreaksBody close ts bad)
    (occur : ∀ t ∈ ts, t.Occurs) (lexical : AllLexical ts) : Viable ts := by
  obtain ⟨us, body, filling, spells⟩ := breaks.completable
  have whole : AllLexical (ts ++ us) := List.forall_mem_append.2 ⟨lexical, filling.lexical⟩
  have ends : (Token.eof .null).kind = .eof := rfl
  obtain ⟨program, read, -⟩ := spells.ofTokens whole ends
  refine ⟨us ++ [Token.eof .null], program, ⟨?_, ts ++ us, Token.eof .null, by simp, rfl, ?_⟩,
    by simpa using read⟩
  · rw [← List.append_assoc]
    exact List.forall_mem_append.2 ⟨List.forall_mem_append.2 ⟨occur, filling.occur⟩,
      List.forall_mem_singleton.2 (Token.eof_occurs .null)⟩
  · intro t member
    exact (whole t member).kind_ne_eof

theorem BreaksBody.not_viable {bad : Token} (breaks : BreaksBody .eof ts bad)
    (lexical : AllLexical ts) : ¬ Viable (ts ++ [bad]) := by
  rintro ⟨rest, program, proper, read⟩
  have shape : ts ++ [bad] ++ rest = ts ++ bad :: rest := by simp
  rw [shape] at proper read
  obtain ⟨cause, refused⟩ := breaks.ofTokens lexical proper.closed
  cases read.symm.trans refused

theorem ofSource_fault_first {source : String} {tokens : List Token} {fault : Fault}
    (scanned : Token.ofSource source = .ok tokens)
    (failed : Program.ofSource source = .error fault) :
    ∃ before bad after, tokens = before ++ bad :: after ∧ fault.position = bad.span.start ∧
      Viable before ∧ ¬ Viable (before ++ [bad]) := by
  have ended := Token.ofSource_ended scanned
  have refused : Program.ofTokens tokens = .error fault := by
    rw [← failed, Program.ofSource, scanned]
  rcases body_progress .eof ended with
    ⟨ts, _, rfl, last, body, t, after, spells, rfl, ends⟩ | ⟨ts, bad, rest, rfl, breaks⟩
  · obtain rfl := last.eof_last ends
    obtain ⟨program, read, -⟩ := spells.ofTokens (ended.before (by simp)) ends
    cases read.symm.trans refused
  · have lexical := ended.before (by simp)
    have occur : ∀ t ∈ ts, t.Occurs := by
      intro t member
      exact Token.occurs_of_mem scanned (List.mem_append_left _ member)
    obtain ⟨cause, stopped⟩ := breaks.ofTokens lexical ended.closed.of_append
    cases refused.symm.trans stopped
    exact ⟨ts, bad, rest, rfl, rfl, breaks.viable occur lexical, breaks.not_viable lexical⟩

-- After the cast, the operand of `+` is missing.
def missingSource : String := "var x = 3;\nshow (text) (x + ;"

theorem missingSource_fault : ∃ tokens fault, Token.ofSource missingSource = .ok tokens ∧
    Program.ofSource missingSource = .error fault ∧ fault.position = ⟨2, 18⟩ ∧
    ∃ before bad after, tokens = before ++ bad :: after ∧ fault.position = bad.span.start ∧
      Viable before ∧ ¬ Viable (before ++ [bad]) := by
  have found : ((Token.ofSource missingSource).toOption.any fun _ => true) = true := by
    decide +kernel
  have faulty : faultOf? (Program.ofSource missingSource) =
      some ⟨.unexpectedToken ";", ⟨2, 18⟩⟩ := by decide +kernel
  obtain ⟨tokens, scanned, -⟩ := ok_of_any found
  have failed := error_of_faultOf? faulty
  exact ⟨tokens, _, scanned, failed, rfl, ofSource_fault_first scanned failed⟩

end Scriptlet
