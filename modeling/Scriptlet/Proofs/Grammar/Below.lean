import Scriptlet.Proofs.Grammar.FirstFault
import Scriptlet.Proofs.Grammar.Moved.Statement

/-!
Programs one below the other. Reading goes on from statement to statement with nothing but the
next free number, so a text below a program is read as it is alone, further down and with greater
numbers: what is read comes after the statements above, and a fault is the same one, moved down.
-/

namespace Scriptlet

open Parse
open Grammar (standard)
open Token (Ended)

namespace Token

theorem scan_below (upper : List Char) (lower : String) :
    scan ⟨lower.toList, (Position.first.advance upper).step '\n'⟩ =
      ((ofSource lower).mapError (Fault.down (lineCount upper))).map
        (List.map (down (lineCount upper))) := by
  rw [Position.advance_first, Position.step_after]
  exact @scan_down (.ofString lower) (lineCount upper)

theorem ofSource_above {upper lower : String} {ts : List Token} {stop : Position}
    (scanned : ofSource upper = .ok (ts ++ [eof stop])) :
    ofSource (upper ++ "\n" ++ lower) =
      ((ofSource lower).mapError (Fault.down (lineCount upper.toList))).map
        fun below => ts ++ below.map (down (lineCount upper.toList)) := by
  have joined : (upper ++ "\n" ++ lower).toList = upper.toList ++ '\n' :: lower.toList := by simp
  unfold ofSource Reader.ofString at scanned
  rw [ofSource, Reader.ofString, joined, scan_above, scanned, Except.bind, scan_below,
    List.dropLast_concat]
  cases ofSource lower <;> rfl

end Token

theorem Closed.down {tokens : List Token} (closed : Closed tokens) (lines : Nat) :
    Closed (tokens.map (Token.down lines)) := by
  simpa [Closed, Token.down] using closed

theorem ReadsBody.length_le {n m : NodeId} {ts : List Token} {body : List Stmt}
    (reads : ReadsBody n ts body m) : body.length ≤ ts.length := by
  induction body generalizing n ts with
  | nil => exact Nat.zero_le _
  | cons stmt body ih =>
    cases reads with | more first rest =>
    obtain ⟨t, us, rfl, -⟩ := first.starts
    have later := ih rest
    simp only [List.length_cons, List.length_append]
    omega

namespace Parse

-- How many numbers are handed out while these tokens are read.
def handedOut (tokens : List Token) : Nat :=
  match program.run (start tokens) with
  | .ok _ s => s.nextId
  | .error _ s => s.nextId

variable {p : Option Position} {ts tokens rest : List Token} {n m : NodeId} {body : List Stmt}
  {fuel : Nat}

theorem handedOut_of_readsBody {ender : Token} (reads : ReadsBody 0 ts body m)
    (ends : ender.kind = .eof) : handedOut (ts ++ [ender]) = m := by
  have closed : Closed [ender] := by simp [Closed, ends]
  have run := reads.statements (p := none) ends closed (8 * ((ts ++ [ender]).length + 3))
    (by rw [List.length_append]; omega)
  rw [handedOut, program_run closed.append, run]
  rfl

-- The statements of a body, and those that were read below it.
def andThen (body : List Stmt) :
    EStateM.Result Stop ParseState (List Stmt) → EStateM.Result Stop ParseState (List Stmt)
  | .ok others s => .ok (body ++ others) s
  | .error stop s => .error stop s

-- By the statements: each is read first, and then what is below all of them.
theorem statements_above (reads : ReadsBody n ts body m) (closed : Closed rest)
    (enough : 3 * ts.length + 2 ≤ fuel) :
    (statements standard (fuel + body.length)).run (place p (ts ++ rest) n) =
      andThen body ((statements standard fuel).run (place (lastStop p ts) rest m)) := by
  induction body generalizing n ts p with
  | nil =>
    cases reads
    rw [List.nil_append, lastStop_nil, List.length_nil, Nat.add_zero]
    cases (statements standard fuel).run (place p rest m) <;> rfl
  | cons stmt body ih =>
    cases reads with | @more ts us _ _ _ k _ first others =>
    obtain ⟨t, vs, same, -, more⟩ := first.starts
    have going : (place p (ts ++ (us ++ rest)) n).cursor.atEnd = false := by
      rw [same]
      simpa [Cursor.atEnd, place, Cursor.kind] using more
    rw [List.length_append] at enough
    rw [List.append_assoc, List.length_cons, ← Nat.add_assoc, lastStop_append]
    simp only [statements]
    rw [bind_run cursor_run]
    simp only [going, Bool.false_eq_true, reduceIte]
    rw [bind_run (first.given closed.append _ (by omega)), EStateM.run_bind,
      ih others (by omega)]
    cases (statements standard fuel).run (place (lastStop (lastStop p ts) us) rest m) <;> rfl

theorem statements_settle (ended : Ended tokens) :
    (∃ body s, Gives (statements standard ·) (place none tokens 0) (4 * tokens.length + 4)
      (.ok body s)) ∨
    ∃ position, Fails (statements standard ·) (place none tokens 0) (4 * tokens.length + 4)
      position := by
  rcases body_progress .eof ended with
    ⟨ts, _, rfl, last, body, t, after, spells, rfl, ends⟩ | ⟨ts, bad, rest, rfl, breaks⟩
  · obtain ⟨read, m, reads, -⟩ := spells.reads (ended.before (by simp)) 0
    exact .inl ⟨read, _, (reads.statements ends last.closed).mono
      (by rw [List.length_append]; omega)⟩
  · have fails := breaks.refusedStatements rfl (ended.before (by simp)) (p := none) (n := 0)
      ended.closed.of_append
    exact .inr ⟨_, fails.mono (by rw [List.length_append]; omega)⟩

theorem ready_place (closed : Closed tokens) : Ready (place p tokens n) := by
  cases tokens with
  | nil => exact absurd rfl closed.ne_nil
  | cons t rest =>
    rintro - last
    obtain rfl : rest = [] := last
    simpa [Closed] using closed

theorem place_below (closed : Closed tokens) (lines : Nat) :
    place p (tokens.map (Token.down lines)) m =
      Shift.state ⟨lines, m, p⟩ (place none tokens 0) := by
  cases tokens with
  | nil => exact absurd rfl closed.ne_nil
  | cons t rest => simp [place, Shift.state, Shift.cursor]

theorem statements_below (reads : ReadsBody 0 ts body m) (closed : Closed tokens) (lines : Nat)
    (enough : 3 * ts.length + 2 ≤ fuel) :
    (statements standard (fuel + body.length)).run
        (place none (ts ++ tokens.map (Token.down lines)) 0) =
      andThen body (Shift.result ⟨lines, m, lastStop none ts⟩ (Stmt.movedAll lines m)
        ((statements standard fuel).run (place none tokens 0))) := by
  rw [statements_above reads (closed.down lines) enough, place_below closed,
    statements_moves.run (ready_place closed)]

end Parse

variable {ts tokens : List Token} {body : List Stmt} {m : NodeId}

-- The budget of the whole program has enough left for the text below.
theorem ofTokens_below (reads : ReadsBody 0 ts body m) (ended : Ended tokens) (lines : Nat) :
    (∀ below, Program.ofTokens tokens = .ok below →
      ∃ whole, Program.ofTokens (ts ++ tokens.map (Token.down lines)) = .ok whole ∧
        whole.body = body ++ Stmt.movedAll lines m below.body) ∧
    ∀ fault, Program.ofTokens tokens = .error fault →
      Program.ofTokens (ts ++ tokens.map (Token.down lines)) = .error (fault.down lines) := by
  have short := reads.length_le
  have length : (ts ++ tokens.map (Token.down lines)).length = ts.length + tokens.length := by simp
  obtain ⟨fuel, budget⟩ : ∃ fuel, 8 * (ts.length + tokens.length + 3) = fuel + body.length :=
    ⟨8 * (ts.length + tokens.length + 3) - body.length, by omega⟩
  have whole := program_run (@Closed.append ts _ (ended.closed.down lines))
  rw [length, budget, statements_below reads ended.closed lines (by omega)] at whole
  have alone := program_run ended.closed
  unfold Program.ofTokens
  rw [whole, alone]
  rcases statements_settle ended with ⟨others, s, gives⟩ | ⟨position, cause, s, -, gives⟩
  · rw [gives _ (by omega), gives fuel (by omega)]
    constructor
    · intro below read
      cases read
      exact ⟨_, rfl, rfl⟩
    · intro fault failed
      cases failed
  · rw [gives _ (by omega), gives fuel (by omega)]
    constructor
    · intro below read
      cases read
    · intro fault failed
      cases failed
      rfl

-- A text below a program that can be read: its statements follow those of the program, and its
-- faults are those it has alone.
theorem ofSource_below {upper lower : String} {tokens : List Token} {above : Program}
    (scanned : Token.ofSource upper = .ok tokens) (read : Program.ofTokens tokens = .ok above) :
    (∀ below, Program.ofSource lower = .ok below →
      ∃ whole, Program.ofSource (upper ++ "\n" ++ lower) = .ok whole ∧
        whole.body = above.body ++
          Stmt.movedAll (lineCount upper.toList) (handedOut tokens) below.body) ∧
    ∀ fault, Program.ofSource lower = .error fault →
      Program.ofSource (upper ++ "\n" ++ lower) =
        .error (fault.down (lineCount upper.toList)) := by
  obtain ⟨ts, stop, rfl, lexical⟩ := Token.ofSource_ended scanned
  obtain ⟨m, reads⟩ := ofTokens_readsBody lexical rfl read
  rw [handedOut_of_readsBody reads rfl]
  unfold Program.ofSource
  rw [Token.ofSource_above scanned]
  cases found : Token.ofSource lower with
  | error fault =>
    constructor
    · intro below read
      cases read
    · intro other failed
      cases failed
      rfl
  | ok below => exact ofTokens_below reads (Token.ofSource_ended found) _

def upperSource : String := "var a = 1; # one\nfunc f(x) \x7b throw x + a; \x7d"

def lowerSource : String := "fixed b, c = f(2);\nshow c;"

-- An operand is missing at the end.
def openSource : String := "\nshow c +;"

theorem upperSource_below : ∃ tokens above below whole, Token.ofSource upperSource = .ok tokens ∧
    Program.ofTokens tokens = .ok above ∧ Program.ofSource lowerSource = .ok below ∧
    Program.ofSource (upperSource ++ "\n" ++ lowerSource) = .ok whole ∧
    whole.body = above.body ++ Stmt.movedAll 2 (handedOut tokens) below.body ∧
    Program.ofSource openSource = .error ⟨.unexpectedToken ";", ⟨2, 9⟩⟩ ∧
    Program.ofSource (upperSource ++ "\n" ++ openSource) =
      .error ⟨.unexpectedToken ";", ⟨4, 9⟩⟩ := by
  have readable : ((Token.ofSource upperSource).toOption.any fun tokens =>
      (Program.ofTokens tokens).toOption.any fun _ => true) = true := by decide +kernel
  have lower : ((Program.ofSource lowerSource).toOption.any fun _ => true) = true := by
    decide +kernel
  have faulty : faultOf? (Program.ofSource openSource) = some ⟨.unexpectedToken ";", ⟨2, 9⟩⟩ := by
    decide +kernel
  have lines : lineCount upperSource.toList = 2 := by decide
  obtain ⟨tokens, scanned, read⟩ := ok_of_any readable
  obtain ⟨above, read, -⟩ := ok_of_any read
  obtain ⟨below, readBelow, -⟩ := ok_of_any lower
  have failed := error_of_faultOf? faulty
  obtain ⟨whole, readWhole, bodies⟩ := (ofSource_below scanned read).1 below readBelow
  have moved := (ofSource_below scanned read).2 _ failed
  rw [lines] at bodies moved
  exact ⟨tokens, above, below, whole, scanned, read, readBelow, readWhole, bodies, failed, moved⟩

end Scriptlet
