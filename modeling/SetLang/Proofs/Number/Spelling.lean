import SetLang.Proofs.Basic
import SetLang.Proofs.Number.IntegerText
import Mathlib.Data.List.TakeWhile

/-!
# Spellings of integers

A natural number is spelled by decimal digits, with any number of zeros in front of them. Without these
zeros a spelling is the decimal text of the number. The digits are read from the left, so what was read
before is one more number in front, which must not be zero for its digits to stay. The text of an
integer is a sign before a decimal or a hexadecimal literal, and the number of its digits tells which.
-/

namespace SetLang

/-- Digits that spell a natural number. -/
structure Spells (digits : List Char) (n : Nat) : Prop where
  ne_nil : digits ≠ []
  isDigit : ∀ d ∈ digits, isDigit d = true
  value : Nat.ofDigitChars 10 digits 0 = n

/-- Digits without the zeros in front of them; nothing but zeros is a single one. -/
def bareDigits (digits : List Char) : List Char :=
  if digits.all (· == '0') then ['0'] else digits.dropWhile (· == '0')

/-- A decimal literal: digits with no zero in front of others, and not more than can be converted. -/
structure IsDecimalLiteral (digits : List Char) : Prop where
  ne_nil : digits ≠ []
  isDigit : ∀ d ∈ digits, isDigit d = true
  bare : digits.head? = some '0' → digits = ['0']
  length_le : digits.length ≤ decimalDigitLimit

/-- A hexadecimal digit that is no capital letter. -/
def IsHexDigit (d : Char) : Prop :=
  isDigit d = true ∨ 'a' ≤ d ∧ d ≤ 'f'

instance (d : Char) : Decidable (IsHexDigit d) :=
  inferInstanceAs (Decidable (_ ∨ _))

/-- A hexadecimal literal: any number of digits behind `0x`. -/
def IsHexLiteral (digits : List Char) : Prop :=
  ∃ more, digits = '0' :: 'x' :: more ∧ more ≠ [] ∧ ∀ d ∈ more, IsHexDigit d

/-! ## Digits and their values -/

theorem digitChar_of_isDigit {c : Char} (h : isDigit c = true) :
    (c.toNat - '0'.toNat).digitChar = c ∧ c.toNat - '0'.toNat < 10 ∧
      (c.toNat - '0'.toNat = 0 → c = '0') := by
  have hall : ∀ c ∈ "0123456789".toList, (c.toNat - '0'.toNat).digitChar = c ∧
      c.toNat - '0'.toNat < 10 ∧ (c.toNat - '0'.toNat = 0 → c = '0') :=
    forall_mem_of_all (by decide)
  exact hall c (mem_of_isDigit h)

/-- Digits behind those of a positive number are digits of the number that both are read as. -/
theorem toDigits_append_digits {digits : List Char} (h : ∀ c ∈ digits, isDigit c = true) {n : Nat}
    (hn : 0 < n) : Nat.toDigits 10 n ++ digits =
      Nat.toDigits 10 (digits.foldl (fun n c => 10 * n + (c.toNat - '0'.toNat)) n) := by
  induction digits generalizing n with
  | nil => exact List.append_nil _
  | cons c digits ih =>
    obtain ⟨hc, hdigits⟩ := List.forall_mem_cons.1 h
    obtain ⟨hchar, hlt, -⟩ := digitChar_of_isDigit hc
    have hfirst : Nat.toDigits 10 n ++ [c] = Nat.toDigits 10 (10 * n + (c.toNat - '0'.toNat)) := by
      rw [← Nat.toDigits_append_toDigits (by decide) hn hlt, Nat.toDigits_of_lt_base hlt, hchar]
    rw [List.foldl_cons, ← ih hdigits (by omega), ← hfirst, List.append_assoc, List.singleton_append]

/-- Digits that do not begin with a zero are those of their value. -/
theorem toDigits_natOfDigits_cons {c : Char} {digits : List Char}
    (h : ∀ d ∈ c :: digits, isDigit d = true) (hc : c ≠ '0') :
    Nat.toDigits 10 (natOfDigits (c :: digits)) = c :: digits := by
  obtain ⟨hdigit, hdigits⟩ := List.forall_mem_cons.1 h
  obtain ⟨hchar, hlt, hzero⟩ := digitChar_of_isDigit hdigit
  have hpos : 0 < c.toNat - '0'.toNat := Nat.pos_of_ne_zero fun h0 => hc (hzero h0)
  have hfirst : Nat.toDigits 10 (c.toNat - '0'.toNat) = [c] := by
    rw [Nat.toDigits_of_lt_base hlt, hchar]
  rw [natOfDigits, List.foldl_cons, Nat.mul_zero, Nat.zero_add, ← toDigits_append_digits hdigits hpos,
    hfirst, List.singleton_append]

/-- Zeros in front of digits do not count. -/
@[simp] theorem natOfDigits_dropWhile_zero (digits : List Char) :
    natOfDigits (digits.dropWhile (· == '0')) = natOfDigits digits := by
  induction digits with
  | nil => rfl
  | cons c digits ih =>
    by_cases hc : c = '0'
    · subst hc
      rw [List.dropWhile_cons_of_pos (by decide), ih]
      rfl
    · rw [List.dropWhile_cons_of_neg (by simpa using hc)]

/-- Without the zeros in front, digits are the decimal text of their value. -/
theorem toDigits_natOfDigits {digits : List Char} (h : ∀ d ∈ digits, isDigit d = true) :
    Nat.toDigits 10 (natOfDigits digits) = bareDigits digits := by
  rw [← natOfDigits_dropWhile_zero, bareDigits]
  cases hbare : digits.dropWhile (· == '0') with
  | nil =>
    rw [if_pos (List.all_eq_true.2 (List.dropWhile_eq_nil_iff.1 hbare))]
    rfl
  | cons c bare =>
    have hkept : ∀ d ∈ c :: bare, d ∈ digits := by
      rw [← hbare]
      exact fun d hd => (List.dropWhile_sublist _).subset hd
    have hc : c ≠ '0' := by
      have hhead : (digits.dropWhile (· == '0')).head? = some c := by rw [hbare, List.head?_cons]
      simpa [hhead] using List.head?_dropWhile_not (· == '0') digits
    have hsome : ¬ digits.all (· == '0') = true := by
      rw [List.all_eq_true]
      exact fun hall => hc (beq_iff_eq.1 (hall c (hkept c List.mem_cons_self)))
    rw [if_neg hsome, toDigits_natOfDigits_cons (fun d hd => h d (hkept d hd)) hc]

namespace Spells

variable {digits : List Char} {n : Nat}

/-- A spelling without the zeros in front is the decimal text of the number. -/
theorem bareDigits_eq (h : Spells digits n) : bareDigits digits = Nat.toDigits 10 n := by
  rw [← toDigits_natOfDigits h.isDigit]
  exact congrArg (Nat.toDigits 10) h.value

/-- A number fits decimal text if it has a spelling of no more digits. -/
theorem fits (h : Spells digits n) (hlength : digits.length ≤ decimalDigitLimit) :
    Integer.FitsDecimal n := by
  have hlt : natOfDigits digits < Nat.pow 10 decimalDigitLimit := natOfDigits_lt h.isDigit hlength
  have hvalue : natOfDigits digits = n := h.value
  rw [Integer.FitsDecimal, Int.natAbs_natCast, ← hvalue]
  exact hlt

/-- The decimal text of a number spells it. -/
theorem toDigits (n : Nat) : Spells (Nat.toDigits 10 n) n where
  ne_nil := Nat.toDigits_ne_nil
  isDigit _ hd := isDigit_of_mem_toDigits hd
  value := Nat.ofDigitChars_ten_toDigits

end Spells

/-! ## Literals -/

/-- No literal is both decimal and hexadecimal. -/
theorem IsHexLiteral.not_isDecimalLiteral {digits : List Char} (h : IsHexLiteral digits) :
    ¬ IsDecimalLiteral digits := by
  obtain ⟨more, rfl, -⟩ := h
  intro hdecimal
  exact absurd (hdecimal.isDigit 'x' (by simp)) (by decide)

theorem isHexDigit_of_mem_toDigits {c : Char} {n : Nat} (h : c ∈ Nat.toDigits 16 n) :
    IsHexDigit c := by
  have hall : ∀ d < 16, IsHexDigit (Nat.digitChar d) := by decide
  obtain ⟨d, hd, rfl⟩ := exists_digitChar_of_mem_toDigits (by decide) h
  exact hall d hd

theorem isHexLiteral_toDigits (n : Nat) : IsHexLiteral ('0' :: 'x' :: Nat.toDigits 16 n) :=
  ⟨_, rfl, Nat.toDigits_ne_nil, fun _ => isHexDigit_of_mem_toDigits⟩

/-- An integer fits decimal text as long as its digits are not too many. -/
theorem fitsDecimal_iff_length_le (n : Int) :
    Integer.FitsDecimal n ↔ (Nat.toDigits 10 n.natAbs).length ≤ decimalDigitLimit := by
  -- the limit stays a variable: its power of ten is too large to compute
  have hiff (k : Nat) (hk : 0 < k) :
      n.natAbs < Nat.pow 10 k ↔ (Nat.toDigits 10 n.natAbs).length ≤ k :=
    (Nat.length_toDigits_le_iff (by decide) hk).symm
  exact hiff decimalDigitLimit (by decide)

theorem isDecimalLiteral_toDigits {n : Nat} (h : (Nat.toDigits 10 n).length ≤ decimalDigitLimit) :
    IsDecimalLiteral (Nat.toDigits 10 n) where
  ne_nil := Nat.toDigits_ne_nil
  isDigit _ hd := isDigit_of_mem_toDigits hd
  bare hhead := by
    by_cases hn : n = 0
    · rw [hn]
      rfl
    · exact absurd hhead (head?_toDigits_ne_zero hn)
  length_le := h

/-- The text of an integer is its sign before a decimal literal if its digits are not too many, and
before a hexadecimal one if they are. -/
theorem Integer.exists_literal_of_text (n : Int) : ∃ digits : List Char,
    (text n).toList = (if n < 0 then '-' :: digits else digits) ∧
    (IsDecimalLiteral digits ↔ (Nat.toDigits 10 n.natAbs).length ≤ decimalDigitLimit) ∧
    (IsHexLiteral digits ↔ decimalDigitLimit < (Nat.toDigits 10 n.natAbs).length) := by
  by_cases hfit : FitsDecimal n
  · have hlength := (fitsDecimal_iff_length_le n).1 hfit
    have hdecimal := isDecimalLiteral_toDigits hlength
    refine ⟨Nat.toDigits 10 n.natAbs, ?_, iff_of_true hdecimal hlength, ?_⟩
    · rw [text_of_fits hfit, decimal, signed, String.toList_ofList]
    · exact iff_of_false (fun hhex => hhex.not_isDecimalLiteral hdecimal) (Nat.not_lt.2 hlength)
  · have hlength := (fitsDecimal_iff_length_le n).not.1 hfit
    have hhex := isHexLiteral_toDigits n.natAbs
    refine ⟨'0' :: 'x' :: Nat.toDigits 16 n.natAbs, ?_, ?_, ?_⟩
    · rw [text_of_not_fits hfit, hex, signed, String.toList_ofList]
    · exact iff_of_false hhex.not_isDecimalLiteral hlength
    · exact iff_of_true hhex (Nat.not_le.1 hlength)

/-- The text of a natural number that fits is its digits. -/
theorem Integer.toList_text_of_fits {n : Nat} (h : FitsDecimal n) :
    (text n).toList = Nat.toDigits 10 n := by
  rw [text_of_fits h, decimal, signed, String.toList_ofList,
    if_neg (Int.not_lt.2 (Int.natCast_nonneg n)), Int.natAbs_natCast]

end SetLang
