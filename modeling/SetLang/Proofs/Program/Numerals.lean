import SetLang.Listing.Emitter
import SetLang.Proofs.Number.Spelling
import SetLang.Proofs.Program.Source

/-!
# Integers between source and code

A spelling of a natural number in a source text is taken as one token, and the number is written into
code as a literal that is read back as it. Main statement: integers survive being written into code,
whatever their size, and being spelled in a text, as long as the spelling is not too long.
-/

namespace SetLang

/-- Digits are taken as one integer token from any cursor that they stand at, unless another digit
follows. -/
def TakenAsInteger (digits : List Char) (n : Nat) : Prop :=
  ∀ (resolve : Resolver) (c : Cursor) (rest : List Char), c.ahead = digits ++ rest →
    (∀ d ∈ rest.head?, isDigit d = false) →
    c.token resolve = (.ok ⟨.integer, .int n, c.place⟩, c.pass digits.length) ∧
      (c.pass digits.length).ahead = rest

/-- A lexeme that a cursor stands at, with no gap before it, is the next token. -/
theorem Cursor.token_of_isLexeme {resolve : Resolver} {c : Cursor} {x rest : List Char}
    {kind : TokenKind} {value : Value} (hahead : c.ahead = x ++ rest) (hgap : BeginsNoGap (x ++ rest))
    (h : IsLexeme resolve x rest kind value) :
    c.token resolve = (.ok ⟨kind, value, c.place⟩, c.pass x.length) := by
  have hskip : c.skipGap = c := skipGap_eq_self (by rwa [hahead])
  have hskipped : c.skipGap.ahead = x ++ rest := by rw [hskip, hahead]
  rw [token_of_some (token?_of_isLexeme hskipped h), hskip]

/-- A spelling that is not too long is taken as the number that it spells. -/
theorem Spells.takenAsInteger {digits : List Char} {n : Nat} (h : Spells digits n)
    (hlength : digits.length ≤ decimalDigitLimit) : TakenAsInteger digits n := by
  intro resolve c rest hahead hrest
  obtain ⟨first, more, rfl⟩ := List.exists_cons_of_ne_nil h.ne_nil
  have hgap : BeginsNoGap (first :: more ++ rest) := by
    intro d hd
    obtain rfl : first = d := Option.some.inj hd
    have hdigit := h.isDigit first List.mem_cons_self
    refine ⟨isBlank_eq_false_of_isDigit hdigit, ?_⟩
    rintro rfl
    exact absurd hdigit (by decide)
  have hlexeme : IsLexeme resolve (first :: more) rest .integer (.int n) := by
    rw [← h.value]
    exact .integer h.isDigit hrest hlength
  exact ⟨Cursor.token_of_isLexeme hahead hgap hlexeme, Cursor.ahead_pass_of_ahead hahead⟩

/-- Integers survive. Code has an integer of any size as a decimal literal, or as a hexadecimal one if
it has more than 4300 digits, with a sign in front if it is negative, and the literal is read as the
integer. A spelling of at most 4300 digits is taken as the natural number that it spells, and the code
of that number is the spelling without the zeros in front, which is taken as the number again. -/
theorem integer_literals_survive :
    (∀ n : Int, exprCode (.mk .integer (.int n) []) = .ok (numberCode (.int n)) ∧
      Integer.ofText? (numberCode (.int n)) = some n ∧
      ∃ digits : List Char,
        (numberCode (.int n)).toList = (if n < 0 then '-' :: digits else digits) ∧
        (IsDecimalLiteral digits ↔ (Nat.toDigits 10 n.natAbs).length ≤ 4300) ∧
        (IsHexLiteral digits ↔ 4300 < (Nat.toDigits 10 n.natAbs).length)) ∧
    ∀ (n : Nat) (digits : List Char), Spells digits n → digits.length ≤ 4300 →
      TakenAsInteger digits n ∧
      (numberCode (.int n)).toList = bareDigits digits ∧
      TakenAsInteger (numberCode (.int n)).toList n := by
  refine ⟨fun n => ⟨rfl, Integer.ofText?_text n, Integer.exists_literal_of_text n⟩, ?_⟩
  intro n digits hspells hlength
  have hfits : Integer.FitsDecimal n := hspells.fits hlength
  have htext : (numberCode (.int n)).toList = Nat.toDigits 10 n := Integer.toList_text_of_fits hfits
  have hshort : (Nat.toDigits 10 n).length ≤ decimalDigitLimit := length_toDigits_le (by decide) hfits
  refine ⟨hspells.takenAsInteger hlength, ?_, ?_⟩
  · rw [htext, hspells.bareDigits_eq]
  · rw [htext]
    exact (Spells.toDigits n).takenAsInteger hshort

/-- In front of a bracket, 0042 is one token that ends there, and its code is 42. -/
theorem integer_literals_survive_leading_zeros :
    let c := Cursor.startAt "* 0042]".toList 2 ⟨1, 3⟩
    Spells "0042".toList 42 ∧ "0042".toList.length ≤ 4300 ∧
      c.token (fun _ => none) = (.ok ⟨.integer, .int 42, ⟨1, 3⟩⟩, c.pass 4) ∧
      (c.pass 4).ahead = "]".toList ∧ (numberCode (.int 42)).toList = "42".toList := by
  have hspells : Spells "0042".toList 42 := ⟨by decide, forall_mem_of_all (by decide), by decide⟩
  have hlength : "0042".toList.length ≤ 4300 := by decide
  have hend : ∀ d ∈ "]".toList.head?, isDigit d = false := by
    intro d hd
    obtain rfl : ']' = d := Option.some.inj hd
    decide
  obtain ⟨htaken, hcode, -⟩ := integer_literals_survive.2 42 _ hspells hlength
  have hread := htaken (fun _ => none) (.startAt "* 0042]".toList 2 ⟨1, 3⟩) "]".toList rfl hend
  exact ⟨hspells, hlength, hread.1, hread.2, hcode⟩

end SetLang
