import Scriptlet.Proofs.Grammar.Below
import Scriptlet.Proofs.Grammar.Literals

/-!
Integer literals. No numeral of a source text is too long to be read, so reading never fails on
one. The integers of a program are, in order and at their places, the ones that the numerals of the
text write in decimal, negated where a tilde stands in front; all of them have at most nine digits.
-/

namespace Scriptlet

open Parse

-- The integer that a literal has, with the place of the literal.
def Expr.integer? : Expr → Option (Span × Int)
  | .literal node (.integer n) => some (node.span, n.toInt)
  | _ => none

def Expr.integers (e : Expr) : List (Span × Int) := e.nodes.filterMap Expr.integer?

-- The integer that a numeral writes, with the place of the numeral.
def Token.integer? (t : Token) : Option (Span × Int) :=
  match t.kind with
  | .integerLiteral => some (t.span, Integer.ofDigits t.value.toList)
  | .negIntegerLiteral => some (t.span, -(Integer.ofDigits (t.value.toList.drop 1) : Int))
  | _ => none

-- The integer that a literal is.
def Literal.integer? : Literal → Option Int
  | .integer n => some n.toInt
  | _ => none

theorem Expr.integers_eq (e : Expr) : e.integers =
    e.literals.filterMap fun row => row.2.integer?.map fun n => (row.1, n) := by
  unfold integers literals
  rw [List.filterMap_filterMap]
  refine List.filterMap_congr fun n _ => ?_
  cases n with
  | literal node value => cases value <;> rfl
  | _ => rfl

namespace Token

variable {t : Token} {found : Span × Int}

-- The integer of the literal that a token is read as.
def readInteger? (t : Token) : Option (Span × Int) :=
  t.literal?.bind fun row => row.2.integer?.map fun n => (row.1, n)

theorem readInteger?_of_none (other : t.integer? = none) : t.readInteger? = none := by
  obtain ⟨kind, word, span⟩ := t
  cases kind with
  | integerLiteral | negIntegerLiteral => cases other
  | pointLiteral | negPointLiteral =>
    unfold readInteger? literal? leafOf
    dsimp only
    split <;> rfl
  | _ => rfl

-- A numeral has nine digits at most, not counting zeros in front, and is read as what it writes.
theorem Lexical.integer_read (lexical : t.Lexical) (numeral : t.integer? = some found) :
    t.readInteger? = some found ∧ -999999999 ≤ found.2 ∧ found.2 ≤ 999999999 := by
  have symbolic : ∀ row ∈ Pattern.symbols,
      row.1 ≠ .integerLiteral ∧ row.1 ≠ .negIntegerLiteral := by decide
  have worded : ∀ row ∈ Pattern.reserved,
      row.2 ≠ .integerLiteral ∧ row.2 ≠ .negIntegerLiteral := by decide
  have unlisted : ∀ {kind value span}, kind ≠ .integerLiteral ∧ kind ≠ .negIntegerLiteral →
      integer? ⟨kind, value, span⟩ = none := by
    intro kind value span other
    unfold integer?
    split
    · exact absurd ‹_› other.1
    · exact absurd ‹_› other.2
    · rfl
  cases lexical with
  | symbol listed =>
    rw [unlisted (symbolic _ listed)] at numeral
    cases numeral
  | reserved listed =>
    rw [unlisted (worded _ listed)] at numeral
    cases numeral
  | integer digital short =>
    have small := Integer.ofDigits_lt digital short
    obtain ⟨n, read, meant, -⟩ := Integer.read?_lexical digital short
    cases numeral
    simp only [String.toList_ofList]
    refine ⟨?_, by omega⟩
    rw [readInteger?, literal?_of_read (leafOf_integer digital read), ← meant]
    rfl
  | negative digital short =>
    have small := Integer.ofDigits_lt digital short
    obtain ⟨n, read, -, meant⟩ := Integer.read?_lexical digital short
    cases numeral
    simp only [String.toList_ofList, List.drop_succ_cons, List.drop_zero]
    refine ⟨?_, by omega⟩
    rw [readInteger?, literal?_of_read (leafOf_negative digital read), ← meant]
    rfl
  | identifier | point | negativePoint | text => cases numeral

theorem Lexical.readInteger?_eq (lexical : t.Lexical) : t.readInteger? = t.integer? := by
  cases numeral : t.integer? with
  | none => exact readInteger?_of_none numeral
  | some found => exact (lexical.integer_read numeral).1

end Token

theorem SameLiterals.integers {es : List Expr} {ts : List Token} (same : SameLiterals es ts)
    (lexical : AllLexical ts) :
    es.flatMap Expr.integers = ts.filterMap Token.integer? := by
  have read : ts.filterMap Token.readInteger? = ts.filterMap Token.integer? :=
    List.filterMap_congr fun t inside => (lexical t inside).readInteger?_eq
  rw [← read, funext Expr.integers_eq, ← List.filterMap_flatMap, same, List.filterMap_filterMap]
  rfl

theorem ofTokens_unexpected {tokens : List Token} {fault : Fault} (ended : Token.Ended tokens)
    (failed : Program.ofTokens tokens = .error fault) : fault.cause.isUnexpected = true := by
  unfold Program.ofTokens at failed
  rw [program_run ended.closed] at failed
  rcases statements_settle ended with ⟨others, s, gives⟩ | ⟨position, cause, s, unexpected, gives⟩
  · rw [gives _ (by omega)] at failed
    cases failed
  · rw [gives _ (by omega)] at failed
    cases failed
    exact unexpected

theorem ofTokens_integers {source : String} {tokens : List Token}
    (scanned : Token.ofSource source = .ok tokens) :
    (∀ fault text, Program.ofTokens tokens = .error fault →
      fault.cause ≠ .unreadableNumber text) ∧
    ∀ program, Program.ofTokens tokens = .ok program →
      (Stmt.rootsAll program.body).flatMap Expr.integers = tokens.filterMap Token.integer? ∧
      ∀ literal ∈ (Stmt.rootsAll program.body).flatMap Expr.integers,
        -999999999 ≤ literal.2 ∧ literal.2 ≤ 999999999 := by
  constructor
  · intro fault text failed same
    have unexpected := ofTokens_unexpected (Token.ofSource_ended scanned) failed
    rw [same] at unexpected
    cases unexpected
  · intro program read
    obtain ⟨ts, stop, rfl, lexical⟩ := Token.ofSource_ended scanned
    obtain ⟨m, reads⟩ := ofTokens_readsBody lexical rfl read
    have same := reads.literals.integers lexical
    have ended : [Token.eof stop].filterMap Token.integer? = [] := rfl
    rw [List.filterMap_append, ended, List.append_nil]
    refine ⟨same, ?_⟩
    intro literal member
    rw [same] at member
    obtain ⟨t, inside, numeral⟩ := List.mem_filterMap.1 member
    exact ((lexical t inside).integer_read numeral).2

-- Zeros in front, a tilde, and a sign that is none.
def numeralSource : String := "var a = 000000000000123456789, b = ~000999999999; show [a - ~0, ~ 7];"

-- Two numerals, one too many.
def doubledSource : String := "show ~1 2;"

theorem numeralSource_integers :
    (∃ tokens program, Token.ofSource numeralSource = .ok tokens ∧
      Program.ofTokens tokens = .ok program ∧
      ((Stmt.rootsAll program.body).flatMap Expr.integers).map Prod.snd =
        [123456789, -999999999, 0, 7] ∧
      ∀ literal ∈ (Stmt.rootsAll program.body).flatMap Expr.integers,
        -999999999 ≤ literal.2 ∧ literal.2 ≤ 999999999) ∧
    ∃ tokens fault, Token.ofSource doubledSource = .ok tokens ∧
      Program.ofTokens tokens = .error fault ∧ ∀ text, fault.cause ≠ .unreadableNumber text := by
  have readable : ((Token.ofSource numeralSource).toOption.any fun tokens =>
      decide ((tokens.filterMap Token.integer?).map Prod.snd = [123456789, -999999999, 0, 7]) &&
        (Program.ofTokens tokens).toOption.any fun _ => true) = true := by decide +kernel
  have refused : ((Token.ofSource doubledSource).toOption.any fun tokens =>
      decide (faultOf? (Program.ofTokens tokens) = some ⟨.unexpectedToken "2", ⟨1, 9⟩⟩)) = true := by
    decide +kernel
  constructor
  · obtain ⟨tokens, scanned, found⟩ := ok_of_any readable
    obtain ⟨numerals, read⟩ := Bool.and_eq_true_iff.1 found
    obtain ⟨program, read, -⟩ := ok_of_any read
    obtain ⟨same, bounds⟩ := (ofTokens_integers scanned).2 program read
    refine ⟨tokens, program, scanned, read, ?_, bounds⟩
    rw [same]
    exact of_decide_eq_true numerals
  · obtain ⟨tokens, scanned, found⟩ := ok_of_any refused
    have failed := error_of_faultOf? (of_decide_eq_true found)
    exact ⟨tokens, _, scanned, failed, fun text => (ofTokens_integers scanned).1 _ text failed⟩

end Scriptlet
