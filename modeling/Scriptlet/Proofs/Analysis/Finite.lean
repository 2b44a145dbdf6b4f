import Scriptlet.Compile
import Scriptlet.Proofs.Analysis.Throughout
import Scriptlet.Proofs.Grammar.Names
import Scriptlet.Proofs.Outcome
import Scriptlet.Proofs.Value.Finite

/-!
Finite points only. What the numerals of a source text write is finite, so all points that the
check of a program finds are: those of its nodes, those before a compound assignment, and those of
the variables of every scope, inside lists too.
-/

namespace Scriptlet

open Integer (AreDigits)
open Parse

-- With nine digits at most on each side, a numeral stays below the square of a thousand millions.
theorem Point.isFinite_numeral {whole fraction : List Char} (digital : AreDigits whole)
    (fractional : AreDigits fraction)
    (short : whole.length ≤ Pattern.maxDigits ∧ fraction.length ≤ Pattern.maxDigits) :
    (Point.ofDecimal (Integer.ofDigits (whole ++ fraction)) (-fraction.length)).isFinite = true := by
  have digits : ∀ c ∈ whole ++ fraction, Integer.isDigit c = true :=
    List.forall_mem_append.2 ⟨digital.2, fractional.2⟩
  have bound := Integer.foldl_digits_lt 0 digits
  have length : (whole ++ fraction).length ≤ 18 := by
    rw [List.length_append]
    exact Nat.add_le_add short.1 short.2
  have power : Nat.pow 10 (whole ++ fraction).length ≤ 1000000000000000000 :=
    Nat.pow_le_pow_right (by decide : 0 < 10) length
  have small : Integer.ofDigits (whole ++ fraction) ≤ 1000000000000000000 := by
    unfold Integer.ofDigits
    omega
  exact isFinite_ofDecimal (Nat.le_trans (log2_le_log2 small) (by decide)) short.2

namespace Token

variable {t : Token} {row : Span × Literal}

theorem literal?_plain (other : t.kind ≠ .pointLiteral ∧ t.kind ≠ .negPointLiteral)
    (read : t.literal? = some row) : row.2.value.Finite := by
  obtain ⟨kind, word, span⟩ := t
  apply Value.finite_of_none
  cases kind with
  | pointLiteral => exact absurd rfl other.1
  | negPointLiteral => exact absurd rfl other.2
  | integerLiteral | negIntegerLiteral =>
    unfold literal? leafOf at read
    dsimp only at read
    split at read
    · cases read
      rfl
    · cases read
  | _ => cases read <;> rfl

theorem Lexical.literal_finite (lexical : t.Lexical) (read : t.literal? = some row) :
    row.2.value.Finite := by
  have symbolic : ∀ row ∈ Pattern.symbols,
      row.1 ≠ .pointLiteral ∧ row.1 ≠ .negPointLiteral := by decide
  have worded : ∀ row ∈ Pattern.reserved,
      row.2 ≠ .pointLiteral ∧ row.2 ≠ .negPointLiteral := by decide
  cases lexical with
  | symbol listed => exact literal?_plain (symbolic _ listed) read
  | reserved listed => exact literal?_plain (worded _ listed) read
  | point digital fractional short =>
    rw [literal?_of_read (leafOf_point digital fractional)] at read
    cases read
    exact Value.finite_point.2 (Point.isFinite_numeral digital fractional short)
  | negativePoint digital fractional short =>
    rw [literal?_of_read (leafOf_negativePoint digital fractional)] at read
    cases read
    exact Value.finite_point.2 (Point.isFinite_neg (Point.isFinite_numeral digital fractional short))
  | identifier | integer | negative | text => exact literal?_plain (by simp) read

end Token

theorem ofSource_literals_finite {source : String} {program : Program}
    (read : Program.ofSource source = .ok program) :
    ∀ e ∈ Stmt.rootsAll program.body, e.Throughout Value.Finite := by
  obtain ⟨ts, m, lexical, reads⟩ := ofSource_reads read
  intro e root row written
  have listed : row ∈ (Stmt.rootsAll program.body).flatMap Expr.literals :=
    List.mem_flatMap.2 ⟨e, root, written⟩
  rw [reads.literals] at listed
  obtain ⟨t, inside, found⟩ := List.mem_filterMap.1 listed
  exact (lexical t inside).literal_finite found

theorem Value.finite_kept : Value.Kept Value.Finite where
  unknown := finite_of_none rfl
  empty := finite_of_none rfl
  list := finite_list.2
  binary := applyBinary_finite
  unary := applyUnary_finite
  cast := castTo_finite

theorem ofSource_finite {source : String} {program : Program}
    (read : Program.ofSource source = .ok program) :
    (∀ count, (Analysis.reached program.body count).Throughout Value.Finite) ∧
      (Analysis.ofProgram program).Throughout Value.Finite := by
  have always := Analysis.reached_throughout Value.finite_kept (ofSource_literals_finite read)
  refine ⟨always, ?_⟩
  rw [Analysis.ofProgram, ← Analysis.reached_end]
  exact always _

-- A product that is too great, and a text that reads as infinite.
def overflowSource : String :=
  "var b=point(\"1e308\"),c=[b,[~0.5,7/2]];b*=9;c+=[point(\"inf\"),b];"

theorem overflowSource_finite :
    ∃ program, Program.ofSource overflowSource = .ok program ∧
      (Analysis.ofProgram program).diagnostics.length = 2 ∧
      ((Analysis.ofProgram program).symbols.scopes.flatMap (·.bindings)).map
        (·.value.points.length) = [0, 3] ∧
      (∀ count, (Analysis.reached program.body count).Throughout Value.Finite) ∧
      (Analysis.ofProgram program).Throughout Value.Finite := by
  have found : ((Program.ofSource overflowSource).toOption.any fun program =>
      decide ((Analysis.ofProgram program).diagnostics.length = 2 ∧
        ((Analysis.ofProgram program).symbols.scopes.flatMap (·.bindings)).map
          (·.value.points.length) = [0, 3])) = true := by decide +kernel
  obtain ⟨program, read, found⟩ := ok_of_any found
  obtain ⟨flaws, stored⟩ := of_decide_eq_true found
  exact ⟨program, read, flaws, stored, ofSource_finite read⟩

end Scriptlet
