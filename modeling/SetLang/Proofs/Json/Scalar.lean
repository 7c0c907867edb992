import SetLang.Json.Writer
import SetLang.Proofs.Json.Extent
import SetLang.Proofs.Text.Literal
import SetLang.Proofs.Token.Gap
import Mathlib.Data.List.Basic

/-!
# Written strings and integers are read back

A written string is the text of the string, and the decimal text of an integer that fits is the text
of the integer.
-/

namespace SetLang.Json

variable {opening rest : List Char} {done : List CodePoint}

/-! ## Strings -/

/-- The forms in which a character stands in a string. -/
inductive CharForm (c : Char) : List Char → Prop where
  | plain : c ≠ '"' → c ≠ '\\' → 0x20 ≤ c.toNat → CharForm c [c]
  | short {k : Char} : k ≠ 'u' → escape? k = some c → CharForm c ['\\', k]
  | numbered : c.toNat < 0x20 → CharForm c ('\\' :: 'u' :: Text.hexDigits 4 c.toNat)

/-- A character is written in one of the forms that are read. -/
theorem charForm_writeChar (c : Char) : CharForm c (writeChar c) := by
  unfold writeChar
  by_cases hself : c = '"' ∨ c = '\\'
  · rw [if_pos hself]
    rcases hself with rfl | rfl
    · exact .short (by decide) rfl
    · exact .short (by decide) rfl
  rw [if_neg hself]
  by_cases hn : c = '\n'
  · subst hn
    exact .short (by decide) rfl
  rw [if_neg hn]
  by_cases hr : c = '\r'
  · subst hr
    exact .short (by decide) rfl
  rw [if_neg hr]
  by_cases ht : c = '\t'
  · subst ht
    exact .short (by decide) rfl
  rw [if_neg ht]
  by_cases hb : c.toNat = 0x08
  · rw [if_pos hb, ← Char.ofNat_toNat c, hb]
    exact .short (by decide) rfl
  rw [if_neg hb]
  by_cases hf : c.toNat = 0x0C
  · rw [if_pos hf, ← Char.ofNat_toNat c, hf]
    exact .short (by decide) rfl
  rw [if_neg hf]
  -- what is left is a control character, written by number, or stands for itself
  by_cases hcontrol : c.toNat < 0x20
  · rw [if_pos hcontrol]
    exact .numbered hcontrol
  · rw [if_neg hcontrol]
    exact .plain (fun h => hself (.inl h)) (fun h => hself (.inr h)) (by omega)

/-- Four digits are read as a code unit, with anything behind them. -/
theorem codeUnit?_append {digits : List Char} (h : digits.length = 4) (c : Char)
    (rest : List Char) : codeUnit? (digits ++ c :: rest) = natOfHexDigits? digits := by
  match digits, h with
  | [_, _, _, _], _ => rfl

/-- A code unit that is half of no pair is the character of its number. -/
theorem pointOfUnit_toNat {c : Char} (h : c.toNat < 0xD800) : pointOfUnit c.toNat = .char c := by
  rw [pointOfUnit, dif_neg (by omega), Char.ofNat_toNat]

/-- A control character that is written by number is read from its four digits. -/
theorem unicodeEscape_hexDigits {c : Char} (h : c.toNat < 0x20) (d : Char) (rest : List Char) :
    unicodeEscape (Text.hexDigits 4 c.toNat ++ d :: rest) = .ok (.char c, 4) := by
  have hlength : (Text.hexDigits 4 c.toNat).length = 4 :=
    Text.length_hexDigits (by omega) (by omega)
  have hhigh : isHighHalf c.toNat = false := by
    rw [isHighHalf, decide_eq_false (by omega), Bool.false_and]
  rw [unicodeEscape, codeUnit?_append hlength, Text.natOfHexDigits?_hexDigits]
  simp only [hhigh, pointOfUnit_toNat (Nat.lt_trans h (by decide : 0x20 < 0xD800))]

/-- A character in one of its forms is read, and what follows the form is left. -/
theorem CharForm.readString_append {c : Char} {form : List Char} (h : CharForm c form) (d : Char) :
    readString opening done (form ++ d :: rest) =
      readString opening (.char c :: done) (d :: rest) := by
  cases h with
  | plain hquote hbackslash hcontrol =>
    rw [List.singleton_append, readString.eq_6 _ _ _ _ hquote (fun h _ => hbackslash h)
      (fun _ h _ => hbackslash h) (fun _ _ h _ => hbackslash h), if_neg (by omega)]
  | short hk hescape =>
    rw [List.cons_append, List.singleton_append, readString.eq_5 _ _ _ _ hk, hescape]
  | numbered hlt =>
    have hlength : (Text.hexDigits 4 c.toNat).length = 4 :=
      Text.length_hexDigits (by omega) (by omega)
    have hdrop : (Text.hexDigits 4 c.toNat ++ d :: rest).drop 4 = d :: rest :=
      List.drop_left' hlength
    rw [List.cons_append, List.cons_append, readString.eq_4, unicodeEscape_hexDigits hlt]
    simp only [hdrop]

/-- Written characters are read back up to the quotation mark. -/
theorem readString_flatMap_writeChar (text : List Char) :
    readString opening done (text.flatMap writeChar ++ '"' :: rest) =
      .ok (⟨done.reverse ++ text.map .char⟩, rest) := by
  induction text generalizing done with
  | nil => rw [List.flatMap_nil, List.nil_append, readString.eq_2, List.map_nil, List.append_nil]
  | cons c text ih =>
    -- some character follows the first one: a form of the next, or the closing quote
    obtain ⟨d, more, hmore⟩ : ∃ d more, text.flatMap writeChar ++ '"' :: rest = d :: more :=
      List.exists_cons_of_ne_nil (by simp)
    rw [List.flatMap_cons, List.append_assoc, hmore,
      (charForm_writeChar c).readString_append, ← hmore, ih, List.reverse_cons, List.append_assoc,
      List.singleton_append, List.map_cons]

/-- A string is read back up to its closing quote and no further. -/
theorem exists_writeString_eq (s : String) :
    ∃ body, writeString s = '"' :: body ∧ IsStringText body (.ofString s) := by
  refine ⟨s.toList.flatMap writeChar ++ ['"'], rfl, ?_⟩
  intro opening rest
  rw [List.append_assoc, List.singleton_append, readString_flatMap_writeChar]
  rfl

/-! ## Numbers -/

theorem isDigit_of_mem_head?_append {n : Nat} {c : Char}
    (h : c ∈ (Nat.toDigits 10 n ++ rest).head?) : isDigit c = true := by
  rw [List.head?_append_of_ne_nil _ Nat.toDigits_ne_nil] at h
  exact isDigit_of_mem_toDigits (List.mem_of_mem_head? h)

/-- The decimal digits of a number are its integer part. -/
theorem wholeDigits_toDigits_append (n : Nat) (hrest : EndsNumber rest) :
    wholeDigits (Nat.toDigits 10 n ++ rest) = Nat.toDigits 10 n := by
  by_cases hn : n = 0
  · subst hn
    rfl
  · have hdigits : (Nat.toDigits 10 n ++ rest).takeWhile isDigit = Nat.toDigits 10 n :=
      takeWhile_append_of_head? (fun c hc => isDigit_of_mem_toDigits hc) fun c hc => (hrest c hc).1
    unfold wholeDigits
    split
    · next more hmore =>
      have hhead : (Nat.toDigits 10 n ++ rest).head? = some '0' := by rw [hmore, List.head?_cons]
      rw [List.head?_append_of_ne_nil _ Nat.toDigits_ne_nil] at hhead
      exact absurd hhead (head?_toDigits_ne_zero hn)
    · exact hdigits

/-- There is no fraction where a number ends. -/
theorem fractionDigits_of_endsNumber (h : EndsNumber rest) : fractionDigits rest = [] := by
  unfold fractionDigits
  split
  · exact absurd rfl (h '.' rfl).2.1
  · rfl

/-- There is no exponent where a number ends. -/
theorem exponent?_of_endsNumber (h : EndsNumber rest) : exponent? rest = none := by
  unfold exponent?
  split
  · next e more =>
    have hne : ¬(e = 'e' ∨ e = 'E') := not_or.2 (h e rfl).2.2
    rw [if_neg hne]
  · rfl

/-- The digits of a natural number are read as the number with a sign. -/
theorem readUnsigned_toDigits (negative : Bool) {n : Nat}
    (hlength : (Nat.toDigits 10 n).length ≤ decimalDigitLimit) (hrest : EndsNumber rest) :
    readUnsigned negative (Nat.toDigits 10 n ++ rest) =
      some (.ok (.int (if negative then -(n : Int) else n), rest)) := by
  have hnonempty : (Nat.toDigits 10 n).isEmpty = false := by
    simp [Nat.toDigits_ne_nil]
  have hlimit : ¬decimalDigitLimit < (Nat.toDigits 10 n).length := Nat.not_lt.2 hlength
  rw [readUnsigned]
  simp [wholeDigits_toDigits_append _ hrest, fractionDigits_of_endsNumber hrest,
    exponent?_of_endsNumber hrest, hnonempty, numberValue, hlimit, natOfDigits_toDigits, Except.map]

/-- The decimal text of an integer that fits is read as the integer. -/
theorem readNumber_decimal {n : Int} (hfit : Integer.FitsDecimal n) (hrest : EndsNumber rest) :
    readNumber ((Integer.decimal n).toList ++ rest) = some (.ok (.int n, rest)) := by
  have hlength : (Nat.toDigits 10 n.natAbs).length ≤ decimalDigitLimit :=
    length_toDigits_le (by decide) hfit
  rw [Integer.decimal, Integer.signed, String.toList_ofList]
  by_cases hneg : n < 0
  · have hvalue : -(n.natAbs : Int) = n := by omega
    rw [if_pos hneg, List.cons_append, readNumber.eq_1, readUnsigned_toDigits true hlength hrest,
      if_pos rfl, hvalue]
  · have hvalue : (n.natAbs : Int) = n := by omega
    have hsign : ∀ more, Nat.toDigits 10 n.natAbs ++ rest ≠ '-' :: more := by
      intro more hmore
      have hhead : '-' ∈ (Nat.toDigits 10 n.natAbs ++ rest).head? := by
        rw [hmore]
        rfl
      exact absurd (isDigit_of_mem_head?_append hhead) (by decide)
    rw [if_neg hneg, readNumber.eq_2 _ hsign, readUnsigned_toDigits false hlength hrest,
      if_neg (by decide), hvalue]

/-- The characters that the words of values begin with. -/
def wordHeads : List Char :=
  "ntfNI-".toList

theorem notMem_wordHeads_of_isDigit {c : Char} (hc : isDigit c = true) : c ∉ wordHeads := by
  have hall : ∀ c ∈ "0123456789".toList, c ∉ wordHeads := forall_mem_of_all (by decide)
  exact hall c (mem_of_isDigit hc)

/-- No word of a value begins with another character, nor with a sign before another one. -/
theorem find?_wordValues_eq_none {c : Char} (hc : c ∉ wordHeads) (text : List Char) :
    (wordValues.find? fun (word, _) => word.isPrefixOf (c :: text)) = none ∧
      (wordValues.find? fun (word, _) => word.isPrefixOf ('-' :: c :: text)) = none := by
  have hne : ∀ d ∈ ['n', 't', 'f', 'N', 'I', '-'], (d == c) = false := by
    intro d hd
    rw [beq_eq_false_iff_ne]
    rintro rfl
    exact hc hd
  simp only [List.forall_mem_cons] at hne
  simp [wordValues, List.isPrefixOf, hne]

/-- Decimal text is read as its integer. -/
theorem readScalar_decimal {n : Int} (hfit : Integer.FitsDecimal n) (hrest : EndsNumber rest) :
    readScalar ((Integer.decimal n).toList ++ rest) = .ok (.int n, rest) := by
  obtain ⟨c, digits, hdigits⟩ : ∃ c digits, Nat.toDigits 10 n.natAbs = c :: digits :=
    List.exists_cons_of_ne_nil Nat.toDigits_ne_nil
  have hc : isDigit c = true := isDigit_of_mem_toDigits (n := n.natAbs) (by rw [hdigits]; simp)
  have hwords := find?_wordValues_eq_none (notMem_wordHeads_of_isDigit hc) (digits ++ rest)
  have hword : (wordValues.find? fun (word, _) =>
      word.isPrefixOf ((Integer.decimal n).toList ++ rest)) = none := by
    rw [Integer.decimal, Integer.signed, String.toList_ofList, hdigits]
    split
    · exact hwords.2
    · exact hwords.1
  rw [readScalar, hword, readNumber_decimal hfit hrest]
  rfl

/-- Decimal text begins with a digit or with a minus sign. -/
theorem exists_cons_decimal (n : Int) :
    ∃ c more, (Integer.decimal n).toList = c :: more ∧ c ∈ scalarChars := by
  have hall : ∀ c ∈ "0123456789".toList, c ∈ scalarChars := forall_mem_of_all (by decide)
  rw [Integer.decimal, Integer.signed, String.toList_ofList]
  split
  · exact ⟨'-', _, rfl, by decide⟩
  · obtain ⟨c, digits, hdigits⟩ : ∃ c digits, Nat.toDigits 10 n.natAbs = c :: digits :=
      List.exists_cons_of_ne_nil Nat.toDigits_ne_nil
    have hc : isDigit c = true := isDigit_of_mem_toDigits (n := n.natAbs) (by simp [hdigits])
    exact ⟨c, digits, hdigits, hall c (mem_of_isDigit hc)⟩

/-- The decimal text of an integer that fits is its text. -/
theorem isText_decimal {n : Int} (hfit : Integer.FitsDecimal n) :
    IsText (Integer.decimal n).toList (.int n) := by
  obtain ⟨c, more, hdecimal, hc⟩ := exists_cons_decimal n
  rw [hdecimal]
  refine isText_of_readScalar hc ?_
  intro rest hrest
  rw [← hdecimal]
  exact readScalar_decimal hfit hrest

end SetLang.Json
