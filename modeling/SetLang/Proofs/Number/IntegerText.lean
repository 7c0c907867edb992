import SetLang.Number.Integer

/-!
# Integer text can be read back

The text of an integer, decimal or hexadecimal, is read back as that integer. Digits are read from
the left, so both readers are followed from the last digit of a number to the first: a number is its
quotient by the base, written out, and one more digit.
-/

namespace SetLang

/-- The digits of a number are those of values below the base. -/
theorem exists_digitChar_of_mem_toDigits {b n : Nat} {c : Char} (hb : 1 < b)
    (h : c ∈ Nat.toDigits b n) : ∃ d < b, d.digitChar = c := by
  induction n using Nat.strongRecOn with
  | ind n ih =>
    rw [Nat.toDigits_eq_if hb] at h
    split at h
    · next hlt => exact ⟨n, hlt, (List.mem_singleton.1 h).symm⟩
    · next hle =>
      have hless : n / b < n := Nat.div_lt_self (by omega) hb
      rcases List.mem_append.1 h with h | h
      · exact ih (n / b) hless h
      · exact ⟨n % b, Nat.mod_lt n (by omega), (List.mem_singleton.1 h).symm⟩

/-! ## Hexadecimal digits -/

theorem hexValue?_digitChar {d : Nat} (h : d < 16) : hexValue? d.digitChar = some d := by
  have hall : ∀ d < 16, hexValue? (Nat.digitChar d) = some d := by decide
  exact hall d h

theorem natOfHexDigits?_append {digits : List Char} {n d : Nat} {c : Char}
    (hdigits : natOfHexDigits? digits = some n) (hc : hexValue? c = some d) :
    natOfHexDigits? (digits ++ [c]) = some (16 * n + d) := by
  unfold natOfHexDigits? at hdigits ⊢
  rw [List.foldlM_append, hdigits]
  simp [hc]

/-- The hexadecimal digits of a number are read back as the number. -/
theorem natOfHexDigits?_toDigits (n : Nat) : natOfHexDigits? (Nat.toDigits 16 n) = some n := by
  -- the reader goes from the left, so the induction takes off the last digit
  induction n using Nat.strongRecOn with
  | ind n ih =>
    rw [Nat.toDigits_eq_if (by omega)]
    split
    · next hlt => simp [natOfHexDigits?, hexValue?_digitChar hlt]
    · next hle =>
      have hdigit : hexValue? (n % 16).digitChar = some (n % 16) :=
        hexValue?_digitChar (Nat.mod_lt _ (by omega))
      have hquotient := ih (n / 16) (by omega)
      rw [natOfHexDigits?_append hquotient hdigit, Nat.div_add_mod]

/-- Zeros before hexadecimal digits do not count. -/
@[simp] theorem natOfHexDigits?_replicate_zero (k : Nat) (digits : List Char) :
    natOfHexDigits? (List.replicate k '0' ++ digits) = natOfHexDigits? digits := by
  induction k with
  | zero => rfl
  | succ k ih =>
    rw [← ih]
    rfl

/-! ## Decimal digits -/

theorem isDigit_eq_isDigit (c : Char) : isDigit c = c.isDigit := by
  rw [isDigit, Char.isDigit, Bool.eq_iff_iff]
  simp [Char.le_def]

theorem mem_of_isDigit {c : Char} (h : isDigit c = true) : c ∈ "0123456789".toList := by
  have hall : ∀ n < 58, 48 ≤ n → Char.ofNat n ∈ "0123456789".toList := by decide
  simp only [isDigit, Bool.and_eq_true, decide_eq_true_eq, Char.le_def,
    UInt32.le_iff_toNat_le] at h
  have hmem := hall c.toNat (Nat.lt_succ_of_le h.2) h.1
  rwa [Char.ofNat_toNat] at hmem

theorem isDigit_of_mem_toDigits {c : Char} {n : Nat} (h : c ∈ Nat.toDigits 10 n) :
    isDigit c = true := by
  rw [isDigit_eq_isDigit]
  exact Nat.isDigit_of_mem_toDigits (by omega) (by omega) h

/-- The value of at most `k` digits is less than the power of ten of `k`. -/
theorem natOfDigits_lt {digits : List Char} {k : Nat} (h : ∀ c ∈ digits, isDigit c = true)
    (hlength : digits.length ≤ k) : natOfDigits digits < Nat.pow 10 k := by
  refine Nat.lt_of_lt_of_le ?_ (Nat.pow_le_pow_right (by decide) hlength)
  clear hlength
  -- what was read before counts as one more digit in front
  suffices hbefore : ∀ n, digits.foldl (fun n c => 10 * n + (c.toNat - '0'.toNat)) n <
      (n + 1) * Nat.pow 10 digits.length by
    simpa [natOfDigits] using hbefore 0
  induction digits with
  | nil =>
    intro n
    exact Nat.lt_of_lt_of_eq (Nat.lt_succ_self n) (Nat.mul_one (n + 1)).symm
  | cons c digits ih =>
    intro n
    obtain ⟨hc, hdigits⟩ := List.forall_mem_cons.1 h
    have hvalue : c.toNat - '0'.toNat ≤ 9 := by
      have hle : c.toNat ≤ '9'.toNat := by
        simp only [isDigit, Bool.and_eq_true, decide_eq_true_eq] at hc
        exact hc.2
      exact Nat.sub_le_of_le_add hle
    have hstep : (10 * n + (c.toNat - '0'.toNat) + 1) * Nat.pow 10 digits.length ≤
        (n + 1) * (Nat.pow 10 digits.length * 10) := by
      have hle : 10 * n + (c.toNat - '0'.toNat) + 1 ≤ (n + 1) * 10 := by omega
      calc (10 * n + (c.toNat - '0'.toNat) + 1) * Nat.pow 10 digits.length
          ≤ (n + 1) * 10 * Nat.pow 10 digits.length := Nat.mul_le_mul_right _ hle
        _ = (n + 1) * (Nat.pow 10 digits.length * 10) := by
          rw [Nat.mul_assoc, Nat.mul_comm 10]
    exact Nat.lt_of_lt_of_le (ih hdigits _) hstep

/-- A number less than the power of ten of `k` has at most `k` digits. -/
theorem length_toDigits_le {n k : Nat} (hk : 0 < k) (h : n < Nat.pow 10 k) :
    (Nat.toDigits 10 n).length ≤ k :=
  (Nat.length_toDigits_le_iff (by decide) hk).2 h

/-- Only zero is written with a zero in front. -/
theorem head?_toDigits_ne_zero {n : Nat} (h : n ≠ 0) : (Nat.toDigits 10 n).head? ≠ some '0' := by
  have hall : ∀ d < 10, d ≠ 0 → some (Nat.digitChar d) ≠ some '0' := by decide
  induction n using Nat.strongRecOn with
  | ind n ih =>
    rw [Nat.toDigits_eq_if (by omega)]
    split
    · next hlt => exact hall n hlt h
    · next hle =>
      -- the digit in front is that of the quotient
      have hquotient := ih (n / 10) (by omega) (by omega)
      obtain ⟨c, digits, hdigits⟩ : ∃ c digits, Nat.toDigits 10 (n / 10) = c :: digits :=
        List.exists_cons_of_ne_nil Nat.toDigits_ne_nil
      rw [hdigits] at hquotient ⊢
      exact hquotient

theorem natOfDigits_toDigits (n : Nat) : natOfDigits (Nat.toDigits 10 n) = n :=
  Nat.ofDigitChars_ten_toDigits

/-! ## Integers -/

namespace Integer

theorem text_of_fits {n : Int} (h : FitsDecimal n) : text n = decimal n := by
  rw [text, decimal?, if_pos h, Option.getD_some]

theorem text_of_not_fits {n : Int} (h : ¬ FitsDecimal n) : text n = hex n := by
  rw [text, decimal?, if_neg h, Option.getD_none]

theorem natOfText?_toDigits (n : Nat) : natOfText? (Nat.toDigits 10 n) = some n := by
  unfold natOfText?
  split
  · next digits hdigits =>
    -- decimal digits have no `x` among them
    have hx : isDigit 'x' = true := isDigit_of_mem_toDigits (n := n) (by rw [hdigits]; simp)
    exact absurd hx (by decide)
  · have hall : (Nat.toDigits 10 n).all isDigit = true :=
      List.all_eq_true.2 fun c hc => isDigit_of_mem_toDigits hc
    have hnonempty : (Nat.toDigits 10 n).isEmpty = false := by
      simp [Nat.toDigits_ne_nil]
    rw [hall, hnonempty, natOfDigits_toDigits]
    rfl

theorem natOfText?_hex (n : Nat) :
    natOfText? ('0' :: 'x' :: Nat.toDigits 16 n) = some n := by
  have hnonempty : (Nat.toDigits 16 n).isEmpty = false := by
    simp [Nat.toDigits_ne_nil]
  rw [natOfText?, hnonempty, natOfHexDigits?_toDigits]
  rfl

/-- A sign before digits that are read back, and that begin with no sign, is read back with them. -/
theorem ofText?_signed (n : Int) {digits : Nat → List Char}
    (hread : natOfText? (digits n.natAbs) = some n.natAbs)
    (hsign : (digits n.natAbs).head? ≠ some '-') : ofText? (signed n digits) = some n := by
  unfold ofText? signed
  rw [String.toList_ofList]
  by_cases hneg : n < 0
  · rw [if_pos hneg]
    have hvalue : -(n.natAbs : Int) = n := by omega
    simp only [hread]
    exact congrArg some hvalue
  · rw [if_neg hneg]
    split
    -- a text that begins with a sign is not one of digits
    · next rest hrest => simp [hrest] at hsign
    · simp only [hread, Option.map_some, Option.some.injEq, Int.ofNat_eq_natCast]
      omega

theorem ofText?_decimal (n : Int) : ofText? (decimal n) = some n := by
  refine ofText?_signed n (natOfText?_toDigits _) ?_
  intro hhead
  have hminus : isDigit '-' = true :=
    isDigit_of_mem_toDigits (n := n.natAbs) (List.mem_of_mem_head? hhead)
  exact absurd hminus (by decide)

theorem ofText?_hex (n : Int) : ofText? (hex n) = some n :=
  ofText?_signed n (natOfText?_hex _) (by simp)

/-- The text of an integer is read back as the integer. -/
@[simp] theorem ofText?_text (n : Int) : ofText? (text n) = some n := by
  by_cases hfit : FitsDecimal n
  · rw [text_of_fits hfit, ofText?_decimal]
  · rw [text_of_not_fits hfit, ofText?_hex]

/-! ## Characters of integer text -/

theorem isAlphanum_of_mem_toDigits {b n : Nat} {c : Char} (hb : 1 < b) (hb' : b ≤ 16)
    (h : c ∈ Nat.toDigits b n) : c.isAlphanum = true := by
  have hall : ∀ d < 16, (Nat.digitChar d).isAlphanum = true := by decide
  obtain ⟨d, hd, rfl⟩ := exists_digitChar_of_mem_toDigits hb h
  exact hall d (by omega)

/-- Integer text consists of a sign, digits and small letters. -/
theorem isAlphanum_or_eq_of_mem_text {n : Int} {c : Char} (h : c ∈ (text n).toList) :
    c.isAlphanum = true ∨ c = '-' := by
  have hsigned {digits : Nat → List Char} (hdigits : ∀ m, ∀ c ∈ digits m, c.isAlphanum = true)
      (h : c ∈ (signed n digits).toList) : c.isAlphanum = true ∨ c = '-' := by
    rw [signed, String.toList_ofList] at h
    split at h
    · rcases List.mem_cons.1 h with h | h
      · exact .inr h
      · exact .inl (hdigits _ c h)
    · exact .inl (hdigits _ c h)
  by_cases hfit : FitsDecimal n
  · rw [text_of_fits hfit, decimal] at h
    exact hsigned (fun m c => isAlphanum_of_mem_toDigits (by omega) (by omega)) h
  · rw [text_of_not_fits hfit, hex] at h
    refine hsigned (fun m c hc => ?_) h
    simp only [List.mem_cons] at hc
    rcases hc with rfl | rfl | hc
    · decide
    · decide
    · exact isAlphanum_of_mem_toDigits (by omega) (by omega) hc

end Integer

end SetLang
