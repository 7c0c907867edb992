import SetLang.Proofs.Token.Gap

/-!
# Lexemes of a text

What a lexeme is, apart from any way to find it: the classes of lexemes, each with the kind and the
value of its token and with what may stand behind it. The reader of character literals and the
search for fixed spellings find exactly the literals and the longest spellings.
-/

namespace SetLang

/-! ## Classes of characters -/

/-- A character that begins neither a word nor a run of digits nor a character literal. -/
def IsSymbol (c : Char) : Prop :=
  isWordStart c = false ∧ isDigit c = false ∧ c ≠ '"' ∧ c ≠ '\''

instance (c : Char) : Decidable (IsSymbol c) :=
  inferInstanceAs (Decidable (_ ∧ _))

theorem isWordChar_of_isWordStart {c : Char} (h : isWordStart c = true) : isWordChar c = true := by
  simp only [isWordStart, isWordChar, Char.isAlphanum, Bool.or_eq_true] at h ⊢
  exact h.imp_left .inl

theorem isWordStart_eq_false_of_isDigit {c : Char} (h : isDigit c = true) :
    isWordStart c = false := by
  simp only [isDigit, Bool.and_eq_true, decide_eq_true_eq, Char.le_def, UInt32.le_iff_toNat_le] at h
  have hlow : '0'.val.toNat = 48 := rfl
  have hhigh : '9'.val.toNat = 57 := rfl
  rw [isWordStart, Bool.or_eq_false_iff]
  constructor
  · have halpha : c.isAlpha = (decide ('A'.val ≤ c.val ∧ c.val ≤ 'Z'.val) ||
        decide ('a'.val ≤ c.val) && decide (c.val ≤ 'z'.val)) := rfl
    have hA : 'A'.val.toNat = 65 := rfl
    have ha : 'a'.val.toNat = 97 := rfl
    simp only [halpha, Bool.or_eq_false_iff, Bool.and_eq_false_iff, decide_eq_false_iff_not,
      UInt32.le_iff_toNat_le]
    omega
  · rw [beq_eq_false_iff_ne]
    rintro rfl
    exact absurd h.2 (by decide)

/-- The characters of words are letters and digits of ASCII, and one mark between them. -/
theorem toNat_of_isWordChar {c : Char} (h : isWordChar c = true) :
    (48 ≤ c.toNat ∧ c.toNat ≤ 57) ∨ (65 ≤ c.toNat ∧ c.toNat ≤ 122) := by
  have hclasses : isWordChar c = (((decide ('A'.val ≤ c.val ∧ c.val ≤ 'Z'.val) ||
      decide ('a'.val ≤ c.val) && decide (c.val ≤ 'z'.val)) ||
      decide ('0'.val ≤ c.val) && decide (c.val ≤ '9'.val)) || c == '_') := rfl
  rw [hclasses] at h
  simp only [Bool.or_eq_true, Bool.and_eq_true, decide_eq_true_eq, beq_iff_eq,
    UInt32.le_iff_toNat_le] at h
  rcases h with ((⟨hlow, hhigh⟩ | ⟨hlow, hhigh⟩) | ⟨hlow, hhigh⟩) | rfl
  · exact .inr ⟨hlow, Nat.le_trans hhigh (by decide)⟩
  · exact .inr ⟨Nat.le_trans (by decide) hlow, hhigh⟩
  · exact .inl ⟨hlow, hhigh⟩
  · exact .inr (by decide)

/-! ## Character literals -/

/-- What stands between the quotes of a character literal: a character other than the quote and the
backslash, or an escape. -/
inductive IsLiteralBody (quote : Char) : List Char → Char → Prop where
  | plain {c : Char} : c ≠ quote → c ≠ '\\' → IsLiteralBody quote [c] c
  | escape {e c : Char} : escaped? e = some c → IsLiteralBody quote ['\\', e] c

@[simp]
theorem ofList_singleton_eq_iff {c d : Char} : String.ofList [c] = String.ofList [d] ↔ c = d := by
  simp

section

variable {quote first value : Char} {body text : List Char} {taken : Nat}

/-- A literal is closed by its quote and by nothing else. -/
theorem closeLiteral_cons (quote value : Char) (taken : Nat) (c : Char) (text : List Char) :
    closeLiteral (String.ofList [quote]) value taken (c :: text) =
      if c = quote then (taken + 1, .closed value) else (taken, .failed .unterminatedLiteral) := by
  rw [closeLiteral]
  simp only [ofList_singleton_eq_iff]

/-- A literal is not closed by the end of the text. -/
theorem closeLiteral_nil (quote value : Char) (taken : Nat) :
    closeLiteral (String.ofList [quote]) value taken [] =
      (taken, .failed .unterminatedLiteral) := by
  rw [closeLiteral, if_neg (by simp)]

/-- A literal is closed by its quote and by nothing else. -/
theorem eq_of_closeLiteral {c : Char} {n : Nat}
    (h : closeLiteral (String.ofList [quote]) c n text = (taken, .closed value)) :
    value = c ∧ taken = n + 1 ∧ ∃ rest, text = quote :: rest := by
  cases text with
  | nil =>
    rw [closeLiteral_nil] at h
    cases h
  | cons d text =>
    rw [closeLiteral_cons] at h
    split at h
    · next hd =>
      cases h
      exact ⟨rfl, rfl, text, by rw [hd]⟩
    · cases h

/-- Where a literal is to be closed, no character is asked for past the end. -/
theorem closeLiteral_ne_pastEnd (c : Char) (n : Nat) (text : List Char) :
    (closeLiteral (String.ofList [quote]) c n text).2 ≠ .pastEnd := by
  cases text with
  | nil =>
    rw [closeLiteral_nil]
    intro h
    cases h
  | cons d text =>
    rw [closeLiteral_cons]
    split
    · intro h
      cases h
    · intro h
      cases h

/-- The body of a literal by its first character. -/
theorem literalBody_cons_cons (quote first c : Char) (text : List Char) :
    literalBody (String.ofList [quote]) (first :: c :: text) =
      if c = quote then (2, .error (.failed .emptyLiteral))
      else if c = '\\' then
        match text with
        | [] => (2, .error (.failed .unterminatedLiteral))
        | e :: _ =>
          match escaped? e with
          | some value => (3, .ok value)
          | none => (3, .error (.failed (.unknownEscape e)))
      else (2, .ok c) := by
  rw [literalBody.eq_def]
  exact if_congr ofList_singleton_eq_iff rfl rfl

/-- What is taken before the closing quote is the body of a literal. -/
theorem exists_isLiteralBody_of_literalBody
    (h : literalBody (String.ofList [quote]) (first :: text) = (taken, .ok value)) :
    ∃ body rest, text = body ++ rest ∧ taken = body.length + 1 ∧
      IsLiteralBody quote body value := by
  cases text with
  | nil => cases h
  | cons c text =>
    rw [literalBody_cons_cons] at h
    split at h
    · cases h
    · next hquote =>
      split at h
      · next hbackslash =>
        subst hbackslash
        cases text with
        | nil => cases h
        | cons e text =>
          cases hescaped : escaped? e with
          | none =>
            simp only [hescaped] at h
            cases h
          | some c =>
            simp only [hescaped] at h
            cases h
            exact ⟨['\\', e], text, rfl, rfl, .escape hescaped⟩
      · next hbackslash =>
        cases h
        exact ⟨[value], text, rfl, rfl, .plain hquote hbackslash⟩

/-- A body that is not finished fails for a cause; it never runs past the end of the text. -/
theorem exists_cause_of_literalBody {ending : LiteralEnd}
    (h : literalBody (String.ofList [quote]) (first :: text) = (taken, .error ending)) :
    ∃ cause, ending = .failed cause := by
  cases text with
  | nil =>
    cases h
    exact ⟨_, rfl⟩
  | cons c text =>
    rw [literalBody_cons_cons] at h
    split at h
    · cases h
      exact ⟨_, rfl⟩
    · split at h
      · cases text with
        | nil =>
          cases h
          exact ⟨_, rfl⟩
        | cons e text =>
          cases hescaped : escaped? e with
          | none =>
            simp only [hescaped] at h
            cases h
            exact ⟨_, rfl⟩
          | some c =>
            simp only [hescaped] at h
            cases h
      · cases h

/-- The body of a literal is taken, whatever follows. -/
theorem literalBody_append (hquote : quote ≠ '\\') (h : IsLiteralBody quote body value)
    (rest : List Char) :
    literalBody (String.ofList [quote]) (first :: (body ++ rest)) = (body.length + 1, .ok value) := by
  cases h with
  | plain hne hbackslash =>
    rw [List.cons_append, literalBody_cons_cons, if_neg hne, if_neg hbackslash]
    rfl
  | @escape e _ hescaped =>
    rw [List.cons_append, List.cons_append, literalBody_cons_cons, if_neg hquote.symm, if_pos rfl]
    simp only [hescaped]
    rfl

/-- Behind its body a literal is closed, or it fails. -/
theorem readLiteral_body_append (hquote : quote ≠ '\\') (h : IsLiteralBody quote body value)
    (rest : List Char) :
    readLiteral (String.ofList [quote]) (first :: (body ++ rest)) =
      closeLiteral (String.ofList [quote]) value (body.length + 1) rest := by
  rw [readLiteral, literalBody_append hquote h]
  simp only [List.drop_succ_cons, List.drop_left]

/-- A literal is read up to its closing quote, whatever follows. -/
theorem readLiteral_append (hquote : quote ≠ '\\') (h : IsLiteralBody quote body value)
    (rest : List Char) :
    readLiteral (String.ofList [quote]) (first :: (body ++ quote :: rest)) =
      (body.length + 2, .closed value) := by
  rw [readLiteral_body_append hquote h, closeLiteral_cons, if_pos rfl]

/-- What is read as a literal is one. -/
theorem exists_isLiteralBody_of_readLiteral
    (h : readLiteral (String.ofList [quote]) (first :: text) = (taken, .closed value)) :
    ∃ body rest, text = body ++ quote :: rest ∧ taken = body.length + 2 ∧
      IsLiteralBody quote body value := by
  unfold readLiteral at h
  split at h
  · next n c hread =>
    obtain ⟨rfl, rfl, rest, hrest⟩ := eq_of_closeLiteral h
    obtain ⟨body, behind, rfl, rfl, hbody⟩ := exists_isLiteralBody_of_literalBody hread
    -- behind the body stands what closes the literal
    rw [List.drop_succ_cons, List.drop_left] at hrest
    exact ⟨body, rest, by rw [hrest], rfl, hbody⟩
  · next n ending hread =>
    obtain ⟨cause, rfl⟩ := exists_cause_of_literalBody hread
    cases h

/-- Closing a literal takes no character back. -/
theorem le_of_closeLiteral (quote : String) (value : Char) (n : Nat) (text : List Char) :
    n ≤ (closeLiteral quote value n text).1 := by
  unfold closeLiteral
  split
  · exact Nat.le_refl n
  · split
    · exact Nat.le_succ n
    · exact Nat.le_refl n

/-- A literal takes at least what stands for its opening quote. -/
theorem readLiteral_pos (quote : String) (first : Char) (text : List Char) :
    0 < (readLiteral quote (first :: text)).1 := by
  have hbody : 0 < (literalBody quote (first :: text)).1 := by
    cases text with
    | nil => exact Nat.one_pos
    | cons c text =>
      rw [literalBody.eq_def]
      simp only
      split
      · exact Nat.two_pos
      · split
        · split
          · exact Nat.two_pos
          · split
            · exact Nat.succ_pos 2
            · exact Nat.succ_pos 2
        · exact Nat.two_pos
  unfold readLiteral
  split
  · next n c hread =>
    rw [hread] at hbody
    exact Nat.lt_of_lt_of_le hbody (le_of_closeLiteral _ _ _ _)
  · next n ending hread =>
    rw [hread] at hbody
    exact hbody

/-- A literal that has begun never runs past the end of the text. -/
theorem readLiteral_ne_pastEnd (quote first : Char) (text : List Char) :
    (readLiteral (String.ofList [quote]) (first :: text)).2 ≠ .pastEnd := by
  unfold readLiteral
  split
  · exact closeLiteral_ne_pastEnd _ _ _
  · next n ending hread =>
    obtain ⟨cause, rfl⟩ := exists_cause_of_literalBody hread
    intro h
    cases h

end

/-! ## Spellings -/

/-- A spelling at the front of a text than which none is longer. -/
def IsLongestSpelling (x rest : List Char) (kind : TokenKind) : Prop :=
  spelled? (String.ofList x) = some kind ∧
    ∀ y, (spelled? (String.ofList y)).isSome → y <+: x ++ rest → y.length ≤ x.length

/-- The fixed spelling of some length at the front of a text. -/
def spellingOfLength? (text : List Char) (n : Nat) : Option (List Char × TokenKind) :=
  let candidate := text.take n
  if candidate.length = n then (spelled? (String.ofList candidate)).map (candidate, ·) else none

/-- A spelling that has a kind is in the table. -/
theorem mem_spellings_of_spelled? {s : String} {kind : TokenKind} (h : spelled? s = some kind) :
    (s, kind) ∈ spellings := by
  rw [spelled?, List.lookup_eq_some_iff] at h
  obtain ⟨before, after, hsplit, -⟩ := h
  rw [hsplit]
  simp

/-- A fixed spelling has at most three characters, and at least one. -/
theorem length_mem_of_isSome_spelled? {x : List Char}
    (h : (spelled? (String.ofList x)).isSome) : x.length ∈ [3, 2, 1] := by
  have hall : ∀ p ∈ spellings, p.1.toList.length ∈ [3, 2, 1] := by decide
  obtain ⟨kind, hkind⟩ := Option.isSome_iff_exists.1 h
  simpa using hall _ (mem_spellings_of_spelled? hkind)

section

variable {text x rest : List Char} {kind : TokenKind} {n : Nat}

/-- The spelling of a length at the front of a text, if there is one. -/
theorem spellingOfLength?_eq_some_iff :
    spellingOfLength? text n = some (x, kind) ↔
      x.length = n ∧ x <+: text ∧ spelled? (String.ofList x) = some kind := by
  unfold spellingOfLength?
  constructor
  · intro h
    simp only at h
    split at h
    · next hlength =>
      obtain ⟨_, hspelled, hpair⟩ := Option.map_eq_some_iff.1 h
      obtain ⟨rfl, rfl⟩ := Prod.mk.inj hpair
      exact ⟨hlength, List.take_prefix n text, hspelled⟩
    · cases h
  · rintro ⟨rfl, hbegins, hspelled⟩
    have htake : text.take x.length = x := (List.prefix_iff_eq_take.1 hbegins).symm
    simp only [htake, if_true, hspelled, Option.map_some]

/-- A spelling at the front of a text is found by its length. -/
theorem spellingOfLength?_ne_none (hx : (spelled? (String.ofList x)).isSome) (hbegins : x <+: text) :
    spellingOfLength? text x.length ≠ none := by
  obtain ⟨kind, hkind⟩ := Option.isSome_iff_exists.1 hx
  rw [spellingOfLength?_eq_some_iff.2 ⟨rfl, hbegins, hkind⟩]
  simp

/-- Lengths are tried from the longest one on. -/
theorem spellingAt?_eq_some_iff_exists :
    spellingAt? text = some (x, kind) ↔
      ∃ longer shorter, [3, 2, 1] = longer ++ x.length :: shorter ∧
        spellingOfLength? text x.length = some (x, kind) ∧
        ∀ n ∈ longer, spellingOfLength? text n = none := by
  show [3, 2, 1].findSome? (spellingOfLength? text) = some (x, kind) ↔ _
  rw [List.findSome?_eq_some_iff]
  constructor
  · rintro ⟨longer, n, shorter, hsplit, hspelling, hlonger⟩
    obtain rfl := (spellingOfLength?_eq_some_iff.1 hspelling).1
    exact ⟨longer, shorter, hsplit, hspelling, hlonger⟩
  · rintro ⟨longer, shorter, hsplit, hspelling, hlonger⟩
    exact ⟨longer, _, shorter, hsplit, hspelling, hlonger⟩

/-- The spelling that is found is the longest one. -/
theorem exists_isLongestSpelling_of_spellingAt? (h : spellingAt? text = some (x, kind)) :
    ∃ rest, text = x ++ rest ∧ IsLongestSpelling x rest kind := by
  obtain ⟨longer, shorter, hsplit, hspelling, hlonger⟩ := spellingAt?_eq_some_iff_exists.1 h
  obtain ⟨-, ⟨rest, rfl⟩, hspelled⟩ := spellingOfLength?_eq_some_iff.1 hspelling
  refine ⟨rest, rfl, hspelled, ?_⟩
  intro y hy hbegins
  have hmem := length_mem_of_isSome_spelled? hy
  have hdescending : ([3, 2, 1] : List Nat).Pairwise (· > ·) := by decide
  rw [hsplit] at hmem hdescending
  -- a longer one would have been found before
  rcases List.mem_append.1 hmem with hmem | hmem
  · exact absurd (hlonger _ hmem) (spellingOfLength?_ne_none hy hbegins)
  · rcases List.mem_cons.1 hmem with heq | hmem
    · exact Nat.le_of_eq heq
    · have hbehind := (List.pairwise_append.1 hdescending).2.1
      exact Nat.le_of_lt ((List.pairwise_cons.1 hbehind).1 _ hmem)

/-- The longest spelling at the front of a text is found. -/
theorem IsLongestSpelling.spellingAt?_append (h : IsLongestSpelling x rest kind) :
    spellingAt? (x ++ rest) = some (x, kind) := by
  obtain ⟨hspelled, hlongest⟩ := h
  have hmem := length_mem_of_isSome_spelled? (x := x) (by rw [hspelled]; rfl)
  obtain ⟨longer, shorter, hsplit⟩ := List.append_of_mem hmem
  refine spellingAt?_eq_some_iff_exists.2 ⟨longer, shorter, hsplit,
    spellingOfLength?_eq_some_iff.2 ⟨rfl, List.prefix_append x rest, hspelled⟩, ?_⟩
  intro n hn
  have hdescending : ([3, 2, 1] : List Nat).Pairwise (· > ·) := by decide
  rw [hsplit] at hdescending
  have hgt := (List.pairwise_append.1 hdescending).2.2 n hn _ List.mem_cons_self
  -- whatever is found there is no longer than the longest one
  cases hspelling : spellingOfLength? (x ++ rest) n with
  | none => rfl
  | some result =>
    obtain ⟨rfl, hbegins, hother⟩ := spellingOfLength?_eq_some_iff.1 hspelling
    have hle := hlongest result.1 (by rw [hother]; rfl) hbegins
    omega

/-- No spelling is found where none stands. -/
theorem spellingAt?_eq_none_iff :
    spellingAt? text = none ↔ ∀ y, (spelled? (String.ofList y)).isSome → ¬ y <+: text := by
  show [3, 2, 1].findSome? (spellingOfLength? text) = none ↔ _
  rw [List.findSome?_eq_none_iff]
  constructor
  · intro h y hy hbegins
    exact spellingOfLength?_ne_none hy hbegins (h _ (length_mem_of_isSome_spelled? hy))
  · intro h n _
    cases hspelling : spellingOfLength? text n with
    | none => rfl
    | some result =>
      obtain ⟨-, hbegins, hspelled⟩ := spellingOfLength?_eq_some_iff.1 hspelling
      exact absurd hbegins (h result.1 (by rw [hspelled]; rfl))

end

/-! ## Lexemes -/

/-- The kind of a word: that of its fixed spelling, else that of its alias, else a plain word. -/
inductive IsWordKind (resolve : Resolver) (word : String) : TokenKind → Prop where
  | spelled {kind : TokenKind} : spelled? word = some kind → IsWordKind resolve word kind
  | aliased {kind : TokenKind} :
      spelled? word = none → resolve word = some kind → IsWordKind resolve word kind
  | plain : spelled? word = none → resolve word = none → IsWordKind resolve word .word

/-- A lexeme before the rest of a text, with the kind and the value of its token. A word and a run
of digits are as long as they can be, a mark is the longest fixed spelling, and a character is
unknown only where nothing else begins. -/
inductive IsLexeme (resolve : Resolver) : List Char → List Char → TokenKind → Value → Prop where
  | word {c : Char} {more rest : List Char} {kind : TokenKind} :
      isWordStart c = true → (∀ d ∈ more, isWordChar d = true) →
      (∀ d ∈ rest.head?, isWordChar d = false) →
      IsWordKind resolve (String.ofList (c :: more)) kind →
      IsLexeme resolve (c :: more) rest kind (.text (String.ofList (c :: more)))
  | integer {c : Char} {more rest : List Char} :
      (∀ d ∈ c :: more, isDigit d = true) → (∀ d ∈ rest.head?, isDigit d = false) →
      (c :: more).length ≤ decimalDigitLimit →
      IsLexeme resolve (c :: more) rest .integer (.int (natOfDigits (c :: more)))
  | quoted {body rest : List Char} {c : Char} : IsLiteralBody '"' body c →
      IsLexeme resolve ('"' :: (body ++ ['"'])) rest .quotedChar (.text (String.ofList [c]))
  | tested {body rest : List Char} {c : Char} : IsLiteralBody '\'' body c →
      IsLexeme resolve ('\'' :: (body ++ ['\''])) rest .testedChar (.text (String.ofList [c]))
  | mark {c : Char} {more rest : List Char} {kind : TokenKind} :
      IsSymbol c → IsLongestSpelling (c :: more) rest kind →
      IsLexeme resolve (c :: more) rest kind (.text (String.ofList (c :: more)))
  | unknown {c : Char} {rest : List Char} : IsSymbol c →
      (∀ y, (spelled? (String.ofList y)).isSome → ¬ y <+: c :: rest) →
      IsLexeme resolve [c] rest .unknown (.text (String.ofList [c]))

/-- The kind of a word is the one that it is resolved to. -/
theorem isWordKind_iff {resolve : Resolver} {word : String} {kind : TokenKind} :
    IsWordKind resolve word kind ↔ wordKind resolve word = kind := by
  rw [wordKind]
  constructor
  · rintro (h | ⟨h, halias⟩ | ⟨h, halias⟩)
    · rw [h]
      rfl
    · rw [h, halias]
      rfl
    · rw [h, halias]
      rfl
  · rintro rfl
    cases hspelled : spelled? word with
    | some kind => exact .spelled hspelled
    | none =>
      cases halias : resolve word with
      | some kind => exact .aliased hspelled halias
      | none => exact .plain hspelled halias

/-- No lexeme is empty. -/
theorem IsLexeme.ne_nil {resolve : Resolver} {x rest : List Char} {kind : TokenKind} {value : Value}
    (h : IsLexeme resolve x rest kind value) : x ≠ [] := by
  cases h <;> simp

theorem IsLexeme.append_ne_nil {resolve : Resolver} {x rest : List Char} {kind : TokenKind}
    {value : Value} (h : IsLexeme resolve x rest kind value) : x ++ rest ≠ [] :=
  fun hnil => h.ne_nil (List.append_eq_nil_iff.1 hnil).1

end SetLang
