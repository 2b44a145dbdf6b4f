import Scriptlet.Point.Layout
import Scriptlet.Proofs.Point.Shortest
import Scriptlet.Proofs.Point.Sign

/-!
The literals of point values. Each is a numeral with a point or an exponent, and what it writes is
a number that rounds to the value and to no other.
-/

namespace Scriptlet.Point

def AllDigits (cs : List Char) : Prop := ∀ c ∈ cs, c.isDigit = true

-- The number that digits write.
def whole (cs : List Char) : Nat := Nat.ofDigitChars 10 cs 0

-- An exponent as it is written after its mark.
def exponentOf : List Char → Int
  | '-' :: digits => -(whole digits : Int)
  | digits => whole digits

-- A numeral without sign and the number that it writes. There is a point in it or an exponent.
inductive Numeral : List Char → ℚ → Prop where
  | pointed {front fraction : List Char} (filled : front ≠ []) (digital : AllDigits front)
      (fractional : AllDigits fraction) :
      Numeral (front ++ '.' :: fraction)
        (whole (front ++ fraction) * (10 : ℚ) ^ (-(fraction.length : Int)))
  | scientific {front exponent : List Char} (filled : front ≠ []) (digital : AllDigits front) :
      Numeral (front ++ 'e' :: exponent) (whole front * (10 : ℚ) ^ exponentOf exponent)
  | both {front fraction exponent : List Char} (filled : front ≠ []) (digital : AllDigits front)
      (fractional : AllDigits fraction) :
      Numeral (front ++ '.' :: (fraction ++ 'e' :: exponent))
        (whole (front ++ fraction) * (10 : ℚ) ^ (exponentOf exponent - fraction.length))

theorem AllDigits.append {cs ds : List Char} (first : AllDigits cs) (second : AllDigits ds) :
    AllDigits (cs ++ ds) := List.forall_mem_append.2 ⟨first, second⟩

theorem not_allDigits_of_mem {cs : List Char} {c : Char} (member : c ∈ cs)
    (other : c.isDigit = false) : ¬ AllDigits cs := by
  intro digital
  have digit := digital c member
  rw [other] at digit
  cases digit

theorem AllDigits.head {cs : List Char} (filled : cs ≠ []) (digital : AllDigits cs) :
    ∃ c rest, cs = c :: rest ∧ c.isDigit = true := by
  obtain ⟨c, rest, rfl⟩ := List.exists_cons_of_ne_nil filled
  exact ⟨c, rest, rfl, digital c List.mem_cons_self⟩

-- Where the characters of a class end, a text splits in one way only.
theorem splits_at_end {p : Char → Bool} {cs ds rest more : List Char}
    (left : ∀ c ∈ cs, p c = true) (right : ∀ c ∈ ds, p c = true)
    (ends : ∀ c ∈ rest.head?, p c = false) (ends' : ∀ c ∈ more.head?, p c = false)
    (same : cs ++ rest = ds ++ more) : cs = ds ∧ rest = more := by
  have nothing : ∀ {cs : List Char}, (∀ c ∈ cs.head?, p c = false) → cs.takeWhile p = [] := by
    intro cs stop
    cases cs with
    | nil => rfl
    | cons c cs => exact List.takeWhile_cons_of_neg (by simp [stop c rfl])
  have taken := congrArg (List.takeWhile p) same
  rw [List.takeWhile_append_of_pos left, List.takeWhile_append_of_pos right, nothing ends,
    nothing ends', List.append_nil, List.append_nil] at taken
  subst taken
  exact ⟨rfl, List.append_cancel_left same⟩

theorem AllDigits.splits {cs ds rest more : List Char} {c d : Char} (left : AllDigits cs)
    (right : AllDigits ds) (other : c.isDigit = false) (other' : d.isDigit = false)
    (same : cs ++ c :: rest = ds ++ d :: more) : cs = ds ∧ c = d ∧ rest = more := by
  have stops : ∀ {c : Char} {rest : List Char}, c.isDigit = false →
      ∀ d ∈ (c :: rest).head?, d.isDigit = false := by
    intro c rest other d first
    cases first
    exact other
  obtain ⟨front, behind⟩ := splits_at_end left right (stops other) (stops other') same
  exact ⟨front, List.cons.inj behind⟩

namespace Numeral

variable {cs : List Char} {v w : ℚ}

theorem front (numeral : Numeral cs v) : ∃ front c rest, front ≠ [] ∧ AllDigits front ∧
    c.isDigit = false ∧ cs = front ++ c :: rest := by
  cases numeral with
  | pointed filled digital fractional => exact ⟨_, '.', _, filled, digital, rfl, rfl⟩
  | scientific filled digital => exact ⟨_, 'e', _, filled, digital, rfl, rfl⟩
  | both filled digital fractional => exact ⟨_, '.', _, filled, digital, rfl, rfl⟩

theorem starts (numeral : Numeral cs v) : ∃ c rest, cs = c :: rest ∧ c.isDigit = true := by
  obtain ⟨front, c, rest, filled, digital, -, rfl⟩ := numeral.front
  obtain ⟨d, more, rfl, digit⟩ := digital.head filled
  exact ⟨d, _, rfl, digit⟩

theorem not_digits (numeral : Numeral cs v) : ¬ AllDigits cs := by
  obtain ⟨front, c, rest, -, -, other, rfl⟩ := numeral.front
  exact not_allDigits_of_mem (by simp) other

theorem unique (numeral : Numeral cs v) (other : Numeral cs w) : v = w := by
  have mark : ('e').isDigit = false := rfl
  have point : ('.').isDigit = false := rfl
  generalize same : cs = ds at other
  cases numeral with
  | pointed filled digital fractional =>
    cases other with
    | pointed filled' digital' fractional' =>
      obtain ⟨rfl, -, rfl⟩ := digital.splits digital' point point same
      rfl
    | scientific filled' digital' =>
      obtain ⟨-, impossible, -⟩ := digital.splits digital' point mark same
      exact absurd impossible (by decide)
    | both filled' digital' fractional' =>
      obtain ⟨-, -, rfl⟩ := digital.splits digital' point point same
      exact absurd fractional (not_allDigits_of_mem (by simp) mark)
  | scientific filled digital =>
    cases other with
    | pointed filled' digital' fractional' =>
      obtain ⟨-, impossible, -⟩ := digital.splits digital' mark point same
      exact absurd impossible (by decide)
    | scientific filled' digital' =>
      obtain ⟨rfl, -, rfl⟩ := digital.splits digital' mark mark same
      rfl
    | both filled' digital' fractional' =>
      obtain ⟨-, impossible, -⟩ := digital.splits digital' mark point same
      exact absurd impossible (by decide)
  | both filled digital fractional =>
    cases other with
    | pointed filled' digital' fractional' =>
      obtain ⟨-, -, rfl⟩ := digital.splits digital' point point same
      exact absurd fractional' (not_allDigits_of_mem (by simp) mark)
    | scientific filled' digital' =>
      obtain ⟨-, impossible, -⟩ := digital.splits digital' point mark same
      exact absurd impossible (by decide)
    | both filled' digital' fractional' =>
      obtain ⟨rfl, -, later⟩ := digital.splits digital' point point same
      obtain ⟨rfl, -, rfl⟩ := fractional.splits fractional' mark mark later
      rfl

end Numeral

namespace Layout

theorem allDigits_toDigits (n : Nat) : AllDigits (Nat.toDigits 10 n) :=
  fun _ member => Nat.isDigit_of_mem_toDigits (by omega) (by omega) member

theorem allDigits_zeros (n : Nat) : AllDigits (zeros n) := by
  intro c member
  rw [List.eq_of_mem_replicate member]
  rfl

theorem toDigits_ne_nil (n : Nat) : Nat.toDigits 10 n ≠ [] :=
  List.ne_nil_of_length_pos Nat.length_toDigits_pos

theorem whole_toDigits (n : Nat) : whole (Nat.toDigits 10 n) = n := Nat.ofDigitChars_ten_toDigits

theorem ofDigitChars_zeros (n init : Nat) :
    Nat.ofDigitChars 10 (zeros n) init = init * Nat.pow 10 n := by
  induction n generalizing init with
  | zero => exact (Nat.mul_one init).symm
  | succ n ih =>
    have step : zeros (n + 1) = '0' :: zeros n := rfl
    rw [step, Nat.ofDigitChars_cons, ih]
    have power : Nat.pow 10 (n + 1) = Nat.pow 10 n * 10 := rfl
    rw [power]
    simp
    ring

theorem whole_append_zeros (cs : List Char) (n : Nat) :
    whole (cs ++ zeros n) = whole cs * Nat.pow 10 n := by
  rw [whole, Nat.ofDigitChars_append, ofDigitChars_zeros]
  rfl

theorem whole_zeros_append (n : Nat) (cs : List Char) : whole (zeros n ++ cs) = whole cs := by
  rw [whole, Nat.ofDigitChars_append, ofDigitChars_zeros, Nat.zero_mul]
  rfl

theorem withPoint_numeral {digits : List Char} (digital : AllDigits digits) (places : Nat) :
    Numeral (withPoint digits places) (whole digits * (10 : ℚ) ^ (-(places : Int))) := by
  have written := whole_zeros_append (places + 1 - digits.length) digits
  have digital' := (allDigits_zeros (places + 1 - digits.length)).append digital
  have long : places + 1 ≤ (zeros (places + 1 - digits.length) ++ digits).length := by
    rw [List.length_append, zeros, List.length_replicate]
    omega
  unfold withPoint
  dsimp only
  generalize zeros (places + 1 - digits.length) ++ digits = padded at written digital' long ⊢
  have behind : padded.length - (padded.length - places) = places := by omega
  have filled : padded.take (padded.length - places) ≠ [] := by
    apply List.ne_nil_of_length_pos
    rw [List.length_take]
    omega
  have numeral := Numeral.pointed filled (fun c member => digital' c (List.mem_of_mem_take member))
    (fun c member => digital' c (List.mem_of_mem_drop member) :
      AllDigits (padded.drop (padded.length - places)))
  rwa [List.take_append_drop, List.length_drop, behind, written] at numeral

theorem positionalText_numeral (d : Decimal) : Numeral (literal.positionalText d) d.value := by
  unfold positionalText
  dsimp only
  by_cases shifted : 0 ≤ d.exponent
  · obtain ⟨n, same⟩ := Int.eq_ofNat_of_zero_le shifted
    have kept : literal.keepsZero = true := rfl
    rw [if_pos shifted, if_pos kept, Decimal.value, same, Int.toNat_natCast]
    have filled : Nat.toDigits 10 d.digits ++ zeros n ≠ [] :=
      List.append_ne_nil_of_left_ne_nil (toDigits_ne_nil _) _
    have numeral := Numeral.pointed filled
      ((allDigits_toDigits d.digits).append (allDigits_zeros n)) (allDigits_zeros 1)
    have scaled : ((d.digits * Nat.pow 10 n * Nat.pow 10 1 : Nat) : ℚ) *
        (10 : ℚ) ^ (-((zeros 1).length : Int)) = d.digits * (10 : ℚ) ^ (n : Int) := by
      have length : (zeros 1).length = 1 := rfl
      rw [length, zpow_natCast]
      simp only [Nat.pow_eq]
      push_cast
      rw [zpow_neg, zpow_one, mul_inv_cancel_right₀ (by norm_num)]
    rwa [whole_append_zeros, whole_append_zeros, whole_toDigits, scaled] at numeral
  · rw [if_neg shifted]
    have numeral := withPoint_numeral (allDigits_toDigits d.digits) (-d.exponent).toNat
    have back : -((-d.exponent).toNat : Int) = d.exponent := by omega
    rwa [whole_toDigits, back] at numeral

theorem exponentOf_digits {cs : List Char} (digital : AllDigits cs) :
    exponentOf cs = whole cs := by
  unfold exponentOf
  split
  · exact absurd (digital '-' (by simp)) (by decide)
  · rfl

theorem exponentText_spells (e : Int) :
    ∃ exponent, literal.exponentText e = 'e' :: exponent ∧ exponentOf exponent = e := by
  have unfilled : zeros (literal.exponentDigits - (Nat.toDigits 10 e.natAbs).length) = [] := by
    have some : 0 < (Nat.toDigits 10 e.natAbs).length := Nat.length_toDigits_pos
    have one : literal.exponentDigits = 1 := rfl
    rw [one, Nat.sub_eq_zero_of_le some]
    rfl
  unfold exponentText
  dsimp only
  rw [unfilled]
  by_cases below : e < 0
  · refine ⟨'-' :: Nat.toDigits 10 e.natAbs, by rw [if_pos below]; rfl, ?_⟩
    rw [exponentOf, whole_toDigits]
    omega
  · refine ⟨Nat.toDigits 10 e.natAbs, by rw [if_neg below]; rfl, ?_⟩
    rw [exponentOf_digits (allDigits_toDigits _), whole_toDigits]
    omega

theorem scientificText_numeral (d : Decimal) : Numeral (literal.scientificText d) d.value := by
  obtain ⟨exponent, marked, spells⟩ := exponentText_spells d.leadingExponent
  have digital := allDigits_toDigits d.digits
  have number := whole_toDigits d.digits
  unfold Decimal.leadingExponent at spells
  unfold scientificText Decimal.value
  rw [marked]
  dsimp only
  split
  · rename_i lead next more digits
    rw [digits] at digital number spells
    have numeral := @Numeral.both [lead] (next :: more) exponent (List.cons_ne_nil _ _)
      (fun c member => digital c (List.mem_singleton.1 member ▸ List.mem_cons_self))
      (fun c member => digital c (List.mem_cons_of_mem _ member))
    have length : d.exponent + ((lead :: next :: more).length : Int) - 1 -
        ((next :: more).length : Int) = d.exponent := by
      rw [List.length_cons]
      omega
    have joined : [lead] ++ next :: more = lead :: next :: more := rfl
    rwa [joined, number, spells, length] at numeral
  · rename_i short other
    have numeral := @Numeral.scientific _ exponent (toDigits_ne_nil d.digits) digital
    have single : (Nat.toDigits 10 d.digits).length = 1 := by
      obtain ⟨lead, rest, digits⟩ := List.exists_cons_of_ne_nil (toDigits_ne_nil d.digits)
      cases rest with
      | nil => rw [digits, List.length_singleton]
      | cons next more => exact absurd digits (other lead next more)
    have length : d.exponent + ((Nat.toDigits 10 d.digits).length : Int) - 1 = d.exponent := by
      rw [single]
      omega
    rwa [number, spells, length] at numeral

theorem magnitudeText_numeral (d : Decimal) : Numeral (literal.magnitudeText d) d.value := by
  unfold magnitudeText
  split
  · exact positionalText_numeral d
  · exact scientificText_numeral d

end Layout

variable {x y : Float} {negative : Bool} {m : Nat} {e : Int}

theorem parts_finite (taken : parts x = .finite negative m e) :
    Stored m e ∧ x.toBits.toNat = (if negative then Nat.pow 2 63 else 0) +
      if m < leadingBit then m else (e - leastExponent).toNat * leadingBit + m := by
  have short := x.toBits.toNat_lt
  unfold parts at taken
  dsimp only at taken
  generalize x.toBits.toNat = bits at short taken ⊢
  have leading : leadingBit = 4503599627370496 := rfl
  have least : leastExponent = -1074 := rfl
  have signed : Nat.pow 2 63 = 9223372036854775808 := rfl
  rw [leading, least, signed] at taken
  rw [leading, least, signed]
  split at taken
  · split at taken <;> cases taken
  · split at taken
    · obtain ⟨rfl, rfl, rfl⟩ := Parts.finite.inj taken
      refine ⟨⟨by omega, by omega, .inr rfl⟩, ?_⟩
      simp only [decide_eq_true_eq]
      split <;> split <;> omega
    · obtain ⟨rfl, rfl, rfl⟩ := Parts.finite.inj taken
      refine ⟨⟨by omega, by omega, .inl (by omega)⟩, ?_⟩
      simp only [decide_eq_true_eq]
      split <;> split <;> omega

theorem eq_of_toBits (same : x.toBits = y.toBits) : x = y := by
  cases x with
  | ofModel f =>
    cases y with
    | ofModel g =>
      cases f
      cases g
      cases same
      rfl

theorem parts_inj (left : parts x = .finite negative m e) (right : parts y = .finite negative m e) :
    x = y := by
  apply eq_of_toBits
  apply UInt64.toNat_inj.1
  rw [(parts_finite left).2, (parts_finite right).2]

-- A finite value without a minus sign.
def Unsigned (x : Float) : Prop := ∃ m e, parts x = .finite false m e

theorem near_zero (e : Int) : Near 0 e 0 := by
  have positive := quarter_pos e
  have lower : gap 0 = 2 := rfl
  refine ⟨?_, ?_, fun _ => rfl⟩
  · rw [lower]
    push_cast
    linarith
  · push_cast
    linarith

theorem literal_numeral (taken : parts x = .finite false m e) :
    ∃ v, Numeral (Layout.literal.write x).toList v ∧ Near m e v := by
  unfold Layout.write
  rw [taken]
  dsimp only
  rw [String.toList_ofList]
  refine ⟨_, Layout.magnitudeText_numeral _, ?_⟩
  by_cases zero : m = 0
  · subst zero
    rw [if_pos rfl, Decimal.value, Nat.cast_zero, zero_mul]
    exact near_zero e
  · rw [if_neg zero]
    exact shortest_near (Nat.pos_of_ne_zero zero) (parts_finite taken).1

-- The numeral writes a number that rounds to the value.
def ReadAs (cs : List Char) (x : Float) : Prop :=
  ∃ v m e, Numeral cs v ∧ parts x = .finite false m e ∧ Near m e v

theorem ReadAs.unique {cs : List Char} (left : ReadAs cs x) (right : ReadAs cs y) : x = y := by
  obtain ⟨v, m, e, numeral, taken, near⟩ := left
  obtain ⟨w, m', e', numeral', taken', near'⟩ := right
  cases numeral.unique numeral'
  obtain ⟨rfl, rfl⟩ := near.unique (parts_finite taken).1 (parts_finite taken').1 near'
  exact parts_inj taken taken'

theorem readAs_write (unsigned : Unsigned x) : ReadAs (Layout.literal.write x).toList x := by
  obtain ⟨m, e, taken⟩ := unsigned
  obtain ⟨v, numeral, near⟩ := literal_numeral taken
  exact ⟨v, m, e, numeral, taken, near⟩

open Classical in
-- The value of a numeral, rounded once.
noncomputable def ofLiteral? (cs : List Char) : Option Float :=
  if found : ∃ x, ReadAs cs x then some found.choose else none

theorem ofLiteral?_write (unsigned : Unsigned x) :
    ofLiteral? (Layout.literal.write x).toList = some x := by
  have written := readAs_write unsigned
  have found : ∃ y, ReadAs (Layout.literal.write x).toList y := ⟨x, written⟩
  rw [ofLiteral?, dif_pos found, found.choose_spec.unique written]

-- The literal of a negative value has a sign in front and is otherwise that of its negation.
theorem write_signed (taken : parts x = .finite true m e) :
    (Layout.literal.write x).toList = '-' :: (Layout.literal.write (-x)).toList ∧
      Unsigned (-x) := by
  have opposite := parts_neg taken
  refine ⟨?_, m, e, opposite⟩
  unfold Layout.write
  rw [taken, opposite]
  simp

theorem neg_neg_of_isFinite (finite : x.isFinite = true) : -(-x) = x := by
  obtain ⟨negative, m, e, taken⟩ := parts_of_isFinite finite
  have twice := parts_neg (parts_neg taken)
  rw [Bool.not_not] at twice
  exact parts_inj twice taken

end Scriptlet.Point
