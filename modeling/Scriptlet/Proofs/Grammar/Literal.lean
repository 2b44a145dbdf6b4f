import Scriptlet.Grammar.Expression
import Scriptlet.Proofs.Token.Lexical

/-!
A lexical token that is a literal is read as what it writes. The length of a lexical numeral
bounds its number, so reading it never fails.
-/

namespace Scriptlet

namespace Integer

variable {cs : List Char}

theorem digitValue_le {c : Char} (digit : isDigit c = true) : digitValue c ≤ 9 := by
  simp only [isDigit, Bool.and_eq_true, decide_eq_true_eq] at digit
  have high : c.toNat ≤ '9'.toNat := digit.2
  have nine : '9'.toNat = 57 := rfl
  have zero : '0'.toNat = 48 := rfl
  unfold digitValue
  omega

theorem foldl_digits_lt (start : Nat) (digital : ∀ c ∈ cs, isDigit c = true) :
    cs.foldl (fun n c => 10 * n + digitValue c) start < (start + 1) * Nat.pow 10 cs.length := by
  induction cs generalizing start with
  | nil => simp
  | cons c cs ih =>
    have small := digitValue_le (digital c (by simp))
    have later := ih (10 * start + digitValue c) fun d member => digital d (by simp [member])
    calc (c :: cs).foldl (fun n c => 10 * n + digitValue c) start
        < (10 * start + digitValue c + 1) * Nat.pow 10 cs.length := later
      _ ≤ (10 * (start + 1)) * Nat.pow 10 cs.length := Nat.mul_le_mul_right _ (by omega)
      _ = (start + 1) * (Nat.pow 10 cs.length * 10) := by
        rw [Nat.mul_comm 10 (start + 1), Nat.mul_assoc, Nat.mul_comm 10]

theorem ofDigits_dropWhile_zero (cs : List Char) :
    ofDigits (cs.dropWhile (· == '0')) = ofDigits cs := by
  induction cs with
  | nil => rfl
  | cons c cs ih =>
    by_cases zero : c = '0'
    · subst zero
      simpa [ofDigits, digitValue] using ih
    · simp [zero]

theorem ofDigits_lt (digital : AreDigits cs) (short : Pattern.integerFits cs = true) :
    ofDigits cs < 1000000000 := by
  have fewer : ∀ c ∈ cs.dropWhile (· == '0'), isDigit c = true := fun c member =>
    digital.2 c (List.dropWhile_sublist _ |>.subset member)
  have bound := foldl_digits_lt 0 fewer
  have length : (cs.dropWhile (· == '0')).length ≤ 9 :=
    of_decide_eq_true short
  have power : Nat.pow 10 (cs.dropWhile (· == '0')).length ≤ 1000000000 :=
    Nat.pow_le_pow_right (by decide : 0 < 10) length
  rw [← ofDigits_dropWhile_zero cs]
  unfold ofDigits
  omega

theorem read?_digits (digital : AreDigits cs) : read? cs = ofInt? (ofDigits cs) := by
  have found : digits? cs = some (ofDigits cs) := by
    have all : cs.all isDigit = true := List.all_eq_true.2 digital.2
    simp [digits?, digital.1, all]
  unfold read?
  split
  · exact absurd (digital.2 '-' (by simp)) (by decide)
  · exact absurd (digital.2 '+' (by simp)) (by decide)
  · rw [found]
    rfl

theorem read?_lexical (digital : AreDigits cs) (short : Pattern.integerFits cs = true) :
    ∃ n : Int64, read? cs = some n ∧ n.toInt = ofDigits cs ∧ (-n).toInt = -(ofDigits cs : Int) := by
  have small := ofDigits_lt digital short
  refine ⟨Int64.ofInt (ofDigits cs), ?_, ?_, ?_⟩
  · rw [read?_digits digital]
    exact if_pos (by unfold least greatest; omega)
  · exact Int64.toInt_ofInt_of_le (by omega) (by omega)
  · rw [← Int64.ofInt_neg]
    exact Int64.toInt_ofInt_of_le (by omega) (by omega)

theorem dropWhile_tilde (digital : AreDigits cs) (rest : List Char) :
    (cs ++ rest).dropWhile (· == '~') = cs ++ rest := by
  obtain ⟨c, more, rfl⟩ := List.exists_cons_of_ne_nil digital.1
  have other : c ≠ '~' := by
    rintro rfl
    exact absurd (digital.2 '~' (by simp)) (by decide)
  simp [other]

end Integer

namespace Point

variable {whole fraction : List Char}

theorem read?_digits (digital : Integer.AreDigits whole) (fractional : Integer.AreDigits fraction) :
    read? (whole ++ '.' :: fraction) =
      some (ofDecimal (Integer.ofDigits (whole ++ fraction)) (-fraction.length)) := by
  have point : Integer.isDigit '.' = false := by decide
  have before : (whole ++ '.' :: fraction).takeWhile Integer.isDigit = whole := by
    rw [List.takeWhile_append_of_pos digital.2]
    simp [point]
  have onward : (whole ++ '.' :: fraction).dropWhile Integer.isDigit = '.' :: fraction := by
    rw [List.dropWhile_append_of_pos digital.2]
    simp [point]
  have after : fraction.takeWhile Integer.isDigit = fraction := by
    simpa using @List.takeWhile_append_of_pos _ _ fraction [] fractional.2
  have nothing : fraction.dropWhile Integer.isDigit = [] := by
    simpa using @List.dropWhile_append_of_pos _ _ fraction [] fractional.2
  have magnitude : magnitude? (whole ++ '.' :: fraction) =
      some (ofDecimal (Integer.ofDigits (whole ++ fraction)) (-fraction.length)) := by
    simp [magnitude?, before, onward, after, nothing, digital.1, exponentPart?]
  have unsigned : read? (whole ++ '.' :: fraction) = unsigned? (whole ++ '.' :: fraction) := by
    obtain ⟨c, more, rfl⟩ := List.exists_cons_of_ne_nil digital.1
    have digit := digital.2 c (by simp)
    unfold read?
    split
    · rename_i same
      cases same
      exact absurd digit (by decide)
    · rename_i same
      cases same
      exact absurd digit (by decide)
    · rfl
  rw [unsigned, unsigned?, magnitude]
  rfl

end Point

namespace Parse

open Integer (AreDigits)

variable {digits whole fraction : List Char} {span : Span}

theorem leafOf_integer {n : Int64} (digital : AreDigits digits)
    (read : Integer.read? digits = some n) :
    leafOf ⟨.integerLiteral, String.ofList digits, span⟩ =
      .ok fun node => .literal node (.integer n) := by
  have numeral := Integer.dropWhile_tilde digital []
  rw [List.append_nil] at numeral
  simp [leafOf, Parse.numeral, numeral, read]

theorem leafOf_negative {n : Int64} (digital : AreDigits digits)
    (read : Integer.read? digits = some n) :
    leafOf ⟨.negIntegerLiteral, String.ofList ('~' :: digits), span⟩ =
      .ok fun node => .literal node (.integer (-n)) := by
  have numeral := Integer.dropWhile_tilde digital []
  rw [List.append_nil] at numeral
  simp [leafOf, Parse.numeral, numeral, read]

theorem leafOf_point (digital : AreDigits whole) (fractional : AreDigits fraction) :
    leafOf ⟨.pointLiteral, String.ofList (whole ++ '.' :: fraction), span⟩ =
      .ok fun node => .literal node
        (.point (Point.ofDecimal (Integer.ofDigits (whole ++ fraction)) (-fraction.length))) := by
  have numeral := Integer.dropWhile_tilde digital ('.' :: fraction)
  have read := Point.read?_digits digital fractional
  simp only [leafOf, Parse.numeral, String.toList_ofList, numeral, read]

theorem leafOf_negativePoint (digital : AreDigits whole) (fractional : AreDigits fraction) :
    leafOf ⟨.negPointLiteral, String.ofList ('~' :: whole ++ '.' :: fraction), span⟩ =
      .ok fun node => .literal node
        (.point (-Point.ofDecimal (Integer.ofDigits (whole ++ fraction)) (-fraction.length))) := by
  have numeral : ('~' :: whole ++ '.' :: fraction).dropWhile (· == '~') =
      whole ++ '.' :: fraction := Integer.dropWhile_tilde digital ('.' :: fraction)
  have read := Point.read?_digits digital fractional
  simp only [leafOf, Parse.numeral, String.toList_ofList, numeral, read]

end Parse

open Parse

theorem read_iff_writes {t : Token} {value meant : Literal}
    (read : leafOf t = .ok fun node => .literal node meant) (writes : t.Writes meant)
    (only : ∀ {other}, t.Writes other → other = meant) :
    leafOf t = .ok (fun node => .literal node value) ↔ t.Writes value := by
  rw [read]
  constructor
  · intro same
    have equal := congrFun (Except.ok.inj same) default
    cases equal
    exact writes
  · intro other
    rw [only other]

theorem writes_opens {t : Token} {value : Literal} (writes : t.Writes value) :
    Grammar.standard.opening t.kind = some .leaf := by
  cases writes <;> rfl

theorem unread_iff_writes {t : Token} {value : Literal}
    (other : Grammar.standard.opening t.kind ≠ some .leaf) :
    leafOf t = .ok (fun node => .literal node value) ↔ t.Writes value := by
  constructor
  · obtain ⟨kind, word, span⟩ := t
    intro read
    refine absurd ?_ other
    cases kind <;> first | rfl | cases read
  · intro writes
    exact absurd (writes_opens writes) other

namespace Token.Writes

variable {digits whole fraction : List Char} {span : Span} {n : Int64} {value : Literal}

theorem eq_integer (writes : Writes ⟨.integerLiteral, String.ofList digits, span⟩ value)
    (meant : n.toInt = Integer.ofDigits digits) : value = .integer n := by
  generalize written : String.ofList digits = text at writes
  cases writes with
  | integer _ same other =>
    obtain rfl := String.ofList_injective (written.trans same)
    rw [Int64.toInt_inj.1 (other.trans meant.symm)]

theorem eq_negative
    (writes : Writes ⟨.negIntegerLiteral, String.ofList ('~' :: digits), span⟩ value)
    (meant : n.toInt = -(Integer.ofDigits digits : Int)) : value = .integer n := by
  generalize written : String.ofList ('~' :: digits) = text at writes
  cases writes with
  | negative _ same other =>
    obtain rfl := List.tail_eq_of_cons_eq (String.ofList_injective (written.trans same))
    rw [Int64.toInt_inj.1 (other.trans meant.symm)]

theorem point_parts {whole' fraction' : List Char} (digital : Integer.AreDigits whole)
    (digital' : Integer.AreDigits whole')
    (same : whole ++ '.' :: fraction = whole' ++ '.' :: fraction') :
    whole = whole' ∧ fraction = fraction' := by
  have point : Integer.isDigit '.' = false := by decide
  have taken := congrArg (List.takeWhile Integer.isDigit) same
  rw [List.takeWhile_append_of_pos digital.2, List.takeWhile_append_of_pos digital'.2] at taken
  simp only [List.takeWhile_cons, point, Bool.false_eq_true, reduceIte, List.append_nil] at taken
  subst taken
  exact ⟨rfl, List.tail_eq_of_cons_eq (List.append_cancel_left same)⟩

theorem eq_point (digital : Integer.AreDigits whole)
    (writes : Writes ⟨.pointLiteral, String.ofList (whole ++ '.' :: fraction), span⟩ value) :
    value = .point (Point.ofDecimal (Integer.ofDigits (whole ++ fraction)) (-fraction.length)) := by
  generalize written : String.ofList (whole ++ '.' :: fraction) = text at writes
  cases writes with
  | point digital' _ same =>
    obtain ⟨rfl, rfl⟩ := point_parts digital digital' (String.ofList_injective (written.trans same))
    rfl

theorem eq_negativePoint (digital : Integer.AreDigits whole)
    (writes :
      Writes ⟨.negPointLiteral, String.ofList ('~' :: whole ++ '.' :: fraction), span⟩ value) :
    value =
      .point (-Point.ofDecimal (Integer.ofDigits (whole ++ fraction)) (-fraction.length)) := by
  generalize written : String.ofList ('~' :: whole ++ '.' :: fraction) = text at writes
  cases writes with
  | negativePoint digital' _ same =>
    have inner := List.tail_eq_of_cons_eq (String.ofList_injective (written.trans same))
    obtain ⟨rfl, rfl⟩ := point_parts digital digital' inner
    rfl

theorem eq_state {word : String} (writes : Writes ⟨.stateLiteral, word, span⟩ value) :
    value = .state (word == "YES") := by
  cases writes <;> rfl

end Token.Writes

theorem symbols_not_leaf {kind : TokenKind} {spelling : List Char}
    (listed : (kind, spelling) ∈ Pattern.symbols) : Grammar.standard.opening kind ≠ some .leaf := by
  have none : ∀ row ∈ Pattern.symbols, Grammar.standard.opening row.1 ≠ some .leaf := by decide
  exact none _ listed

theorem reserved_leaf {kind : TokenKind} {word : String}
    (listed : (word, kind) ∈ Pattern.reserved)
    (opens : Grammar.standard.opening kind = some .leaf) :
    word = "empty" ∧ kind = .emptyLiteral ∨ word = "YES" ∧ kind = .stateLiteral ∨
      word = "NO" ∧ kind = .stateLiteral := by
  have few : ∀ row ∈ Pattern.reserved, Grammar.standard.opening row.2 = some .leaf →
      row ∈ [("empty", .emptyLiteral), ("YES", .stateLiteral), ("NO", .stateLiteral)] := by decide
  have row := few _ listed opens
  simpa only [List.mem_cons, Prod.mk.injEq, List.not_mem_nil, or_false] using row

theorem reserved_iff_writes {kind : TokenKind} {word : String} {span : Span} {value : Literal}
    (listed : (word, kind) ∈ Pattern.reserved) :
    leafOf ⟨kind, word, span⟩ = .ok (fun node => .literal node value) ↔
      Token.Writes ⟨kind, word, span⟩ value := by
  by_cases opens : Grammar.standard.opening kind = some .leaf
  · rcases reserved_leaf listed opens with ⟨rfl, rfl⟩ | ⟨rfl, rfl⟩ | ⟨rfl, rfl⟩
    · exact read_iff_writes rfl .empty fun writes => by cases writes; rfl
    · exact read_iff_writes rfl .yes fun writes => writes.eq_state
    · exact read_iff_writes rfl .no fun writes => writes.eq_state
  · exact unread_iff_writes opens

theorem leafOf_iff_writes {t : Token} {value : Literal} (lexical : t.Lexical) :
    leafOf t = .ok (fun node => .literal node value) ↔ t.Writes value := by
  cases lexical with
  | symbol listed => exact unread_iff_writes (symbols_not_leaf listed)
  | reserved listed => exact reserved_iff_writes listed
  | identifier =>
    constructor
    · intro read
      have equal := congrFun (Except.ok.inj read) default
      cases equal
    · intro writes
      cases writes
  | integer digital short =>
    obtain ⟨n, read, meant, -⟩ := Integer.read?_lexical digital short
    exact read_iff_writes (leafOf_integer digital read) (.integer digital rfl meant)
      fun writes => writes.eq_integer meant
  | negative digital short =>
    obtain ⟨n, read, -, meant⟩ := Integer.read?_lexical digital short
    exact read_iff_writes (leafOf_negative digital read) (.negative digital rfl meant)
      fun writes => writes.eq_negative meant
  | point digital fractional =>
    exact read_iff_writes (leafOf_point digital fractional) (.point digital fractional rfl)
      fun writes => writes.eq_point digital
  | negativePoint digital fractional =>
    exact read_iff_writes (leafOf_negativePoint digital fractional)
      (.negativePoint digital fractional rfl) fun writes => writes.eq_negativePoint digital
  | text => exact read_iff_writes rfl .text fun writes => by cases writes; rfl

end Scriptlet
