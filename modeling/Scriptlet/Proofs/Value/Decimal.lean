import Mathlib.Data.List.DropRight
import Mathlib.Data.Nat.Digits.Defs
import Scriptlet.Proofs.Grammar.Literal
import Scriptlet.Proofs.Token.Lines
import Scriptlet.Value.Cast

/-!
Integers as text and back. Casting an integer to text and the text to an integer gives the integer
again, whatever white space is put around the text; and the texts that can be cast are the decimal
integers in range, with at most one sign, any number of zeros in front and white space around them.
-/

namespace Scriptlet

namespace Text

variable {body cs rest : List Char}

def AllBlank (cs : List Char) : Prop := ∀ c ∈ cs, isBlank c = true

-- A text that is `body` with blanks around it.
def Surrounds (cs body : List Char) : Prop :=
  ∃ before after, AllBlank before ∧ AllBlank after ∧ cs = before ++ body ++ after

theorem surrounds_trim (cs : List Char) : Surrounds cs (trim cs) := by
  refine ⟨cs.takeWhile isBlank, (trimStart cs).rtakeWhile isBlank, ?_, ?_, ?_⟩
  · exact List.all_eq_true.1 List.all_takeWhile
  · exact fun c => List.mem_rtakeWhile_imp
  · have ends : trim cs ++ (trimStart cs).rtakeWhile isBlank = trimStart cs :=
      List.rdropWhile_append_rtakeWhile
    rw [List.append_assoc, ends]
    exact List.takeWhile_append_dropWhile.symm

theorem dropWhile_blanks {before : List Char} (blank : AllBlank before) (filled : body ≠ [])
    (solid : ∀ c ∈ body, isBlank c = false) :
    (before ++ body ++ rest).dropWhile isBlank = body ++ rest := by
  obtain ⟨c, more, rfl⟩ := List.exists_cons_of_ne_nil filled
  rw [List.append_assoc, List.dropWhile_append_of_pos blank]
  exact List.dropWhile_cons_of_neg (by simp [solid c])

-- Blanks inside would not matter either, but what is read as a number has none.
theorem Surrounds.trim_eq (surrounds : Surrounds cs body) (filled : body ≠ [])
    (solid : ∀ c ∈ body, isBlank c = false) : trim cs = body := by
  obtain ⟨before, after, blank, blank', rfl⟩ := surrounds
  have turned : (body ++ after).reverse = after.reverse ++ body.reverse ++ [] := by simp
  have start : trimStart (before ++ body ++ after) = body ++ after :=
    dropWhile_blanks blank filled solid
  rw [trim, start, trimEnd, turned, dropWhile_blanks]
  · simp
  · simpa [AllBlank] using blank'
  · simpa using filled
  · simpa using solid

end Text

namespace Integer

variable {cs digits : List Char} {n : Int64} {z : Int}

-- The number that digits write: the last one counts ones, each one before it ten times as much.
def positional (digits : List Char) : Nat :=
  Nat.ofDigits 10 (digits.reverse.map fun c => c.toNat - '0'.toNat)

-- A decimal integer, and the number that it writes.
inductive Decimal : List Char → Int → Prop where
  | unsigned {digits : List Char} (digital : AreDigits digits) : Decimal digits (positional digits)
  | positive {digits : List Char} (digital : AreDigits digits) :
      Decimal ('+' :: digits) (positional digits)
  | negative {digits : List Char} (digital : AreDigits digits) :
      Decimal ('-' :: digits) (-(positional digits : Int))

theorem ofDigits_eq (digits : List Char) : ofDigits digits = positional digits := by
  rw [positional, Nat.ofDigits_eq_foldr, List.foldr_map, List.foldr_reverse]
  simp [ofDigits, digitValue, Nat.add_comm]

theorem ofInt?_eq_some_iff : ofInt? z = some n ↔ n.toInt = z := by
  constructor
  · exact toInt_ofInt?
  · rintro rfl
    exact ofInt?_toInt n

theorem digits?_eq_some_iff {k : Nat} :
    digits? cs = some k ↔ AreDigits cs ∧ positional cs = k := by
  simp [digits?, AreDigits, ofDigits_eq]

theorem bind_digits?_iff {number : Nat → Int} :
    ((digits? digits).bind fun k => ofInt? (number k)) = some n ↔
      AreDigits digits ∧ n.toInt = number (positional digits) := by
  simp [Option.bind_eq_some_iff, digits?_eq_some_iff, ofInt?_eq_some_iff]

theorem read?_iff : read? cs = some n ↔ Decimal cs n.toInt := by
  constructor
  · intro found
    unfold read? at found
    split at found
    · obtain ⟨digital, number⟩ := bind_digits?_iff.1 found
      exact number ▸ .negative digital
    · obtain ⟨digital, number⟩ := bind_digits?_iff.1 found
      exact number ▸ .positive digital
    · obtain ⟨digital, number⟩ := bind_digits?_iff.1 found
      exact number ▸ .unsigned digital
  · intro decimal
    generalize number : n.toInt = z at decimal
    cases decimal with
    | unsigned digital => rw [read?_digits digital, ofInt?_eq_some_iff, number, ofDigits_eq]
    | positive digital => exact bind_digits?_iff.2 ⟨digital, number⟩
    | negative digital => exact bind_digits?_iff.2 ⟨digital, number⟩

theorem areDigits_toDigits (k : Nat) : AreDigits (Nat.toDigits 10 k) :=
  ⟨Nat.toDigits_ne_nil, fun _ => Nat.isDigit_of_mem_toDigits (by decide) (by decide)⟩

theorem positional_toDigits (k : Nat) : positional (Nat.toDigits 10 k) = k := by
  rw [← ofDigits_eq]
  exact Nat.ofDigitChars_ten_toDigits

theorem text_decimal (n : Int64) : Decimal (text n).toList n.toInt := by
  rw [text, Int.toString_eq_repr, Int.repr_eq_if]
  split
  · rename_i unsigned
    have decimal := Decimal.unsigned (areDigits_toDigits n.toInt.toNat)
    rwa [positional_toDigits, Int.toNat_of_nonneg unsigned, ← Nat.toList_repr] at decimal
  · rename_i signed
    have decimal := Decimal.negative (areDigits_toDigits (-n.toInt).toNat)
    have chars : ("-" ++ (-n.toInt).toNat.repr).toList =
        '-' :: Nat.toDigits 10 (-n.toInt).toNat := by
      rw [String.toList_append, Nat.toList_repr]
      rfl
    rwa [positional_toDigits, Int.toNat_of_nonneg (by omega), Int.neg_neg, ← chars] at decimal

theorem Decimal.ne_nil (decimal : Decimal cs z) : cs ≠ [] := by
  cases decimal with
  | unsigned digital => exact digital.1
  | positive | negative => exact List.cons_ne_nil _ _

theorem Decimal.digital_of_head (decimal : Decimal cs z)
    (first : cs.head?.any Char.isDigit = true) : ∀ c ∈ cs, c.isDigit = true := by
  cases decimal with
  | unsigned digital => exact digital.2
  | positive | negative => cases first

theorem Decimal.solid (decimal : Decimal cs z) : ∀ c ∈ cs, Text.isBlank c = false := by
  have solid : ∀ {digits : List Char}, AreDigits digits →
      ∀ c ∈ digits, Text.isBlank c = false := by
    intro digits digital c member
    rw [← Bool.not_eq_true]
    intro blank
    have word : Pattern.isWordChar c = true := by
      rw [Pattern.isWordChar, digital.2 c member, Bool.or_true]
    rw [Pattern.blank_apart blank] at word
    cases word
  cases decimal with
  | unsigned digital => exact solid digital
  | positive digital => exact List.forall_mem_cons.2 ⟨by decide, solid digital⟩
  | negative digital => exact List.forall_mem_cons.2 ⟨by decide, solid digital⟩

end Integer

namespace Value

open Integer Text

variable {s : String} {v : Value} {body : List Char} {z : Int}

theorem castTo_integer_eq_ok_iff : castTo .integer (text s) = .ok v ↔
    ∃ n, read? (trim s.toList) = some n ∧ integer n = v := by
  cases found : read? (trim s.toList) <;> simp [castTo, toInteger?, found]

theorem castTo_integer_iff : castTo .integer (text s) = .ok v ↔
    ∃ body z, Surrounds s.toList body ∧ Decimal body z ∧ least ≤ z ∧ z ≤ greatest ∧
      v = integer (Int64.ofInt z) := by
  rw [castTo_integer_eq_ok_iff]
  constructor
  · rintro ⟨n, found, rfl⟩
    have low := Int64.le_toInt n
    have high := Int64.toInt_lt n
    refine ⟨trim s.toList, n.toInt, surrounds_trim _, read?_iff.1 found, ?_, ?_, ?_⟩
    · unfold least
      omega
    · unfold greatest
      omega
    · rw [Int64.ofInt_toInt]
  · rintro ⟨body, z, surrounds, decimal, low, high, rfl⟩
    unfold least at low
    unfold greatest at high
    refine ⟨Int64.ofInt z, ?_, rfl⟩
    rw [surrounds.trim_eq decimal.ne_nil decimal.solid, read?_iff,
      Int64.toInt_ofInt_of_le (by omega) (by omega)]
    exact decimal

theorem castTo_integer_surrounded {n : Int64} (surrounds : Surrounds s.toList (Integer.text n).toList) :
    castTo .integer (text s) = .ok (integer n) := by
  have decimal := text_decimal n
  refine castTo_integer_eq_ok_iff.2 ⟨n, ?_, rfl⟩
  rw [surrounds.trim_eq decimal.ne_nil decimal.solid, read?_iff]
  exact decimal

-- The two casts are inverse, and one of them accepts exactly the decimal integers in range.
theorem decimal_casts :
    (∀ n : Int64, ∃ t, castTo .text (integer n) = .ok (text t) ∧
      castTo .integer (text t) = .ok (integer n) ∧
      ∀ before after : String, AllBlank before.toList → AllBlank after.toList →
        castTo .integer (text (before ++ t ++ after)) = .ok (integer n)) ∧
    ∀ (s : String) (v : Value), castTo .integer (text s) = .ok v ↔
      ∃ body z, Surrounds s.toList body ∧ Decimal body z ∧ least ≤ z ∧ z ≤ greatest ∧
        v = integer (Int64.ofInt z) := by
  refine ⟨fun n => ⟨Integer.text n, rfl, ?_, ?_⟩, fun s v => castTo_integer_iff⟩
  · exact castTo_integer_surrounded ⟨[], [], List.forall_mem_nil _, List.forall_mem_nil _, by simp⟩
  · intro before after blank blank'
    exact castTo_integer_surrounded ⟨_, _, blank, blank', by simp⟩

-- The least integer has no positive counterpart, and a sign and zeros may stand in front.
theorem paddedTexts_cast :
    (∃ t, castTo .text (integer Int64.minValue) = .ok (text t) ∧
      castTo .integer (text ("\u2003\t" ++ t ++ "\n")) = .ok (integer Int64.minValue)) ∧
    castTo .integer (text " +0042") = .ok (integer 42) := by
  obtain ⟨t, written, -, surrounded⟩ := decimal_casts.1 Int64.minValue
  have wide : ("\u2003\t".toList.all isBlank && "\n".toList.all isBlank) = true := by decide
  rw [Bool.and_eq_true, List.all_eq_true, List.all_eq_true] at wide
  have digital : AreDigits ['0', '0', '4', '2'] := ⟨by simp, by simp [isDigit]⟩
  have padded : Surrounds " +0042".toList ['+', '0', '0', '4', '2'] :=
    ⟨[' '], [], List.forall_mem_singleton.2 rfl, List.forall_mem_nil _, rfl⟩
  exact ⟨⟨t, written, surrounded _ _ wide.1 wide.2⟩,
    (decimal_casts.2 _ _).2 ⟨_, _, padded, .positive digital, by decide, by decide, rfl⟩⟩

end Value

end Scriptlet
