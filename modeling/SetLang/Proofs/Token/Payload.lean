import SetLang.Program.Basic
import SetLang.Proofs.Alias.Reachable
import SetLang.Proofs.Number.IntegerText
import SetLang.Proofs.Token.Scan

/-!
# Payloads of tokens

The tokens of a text carry what their kind calls for: an integer literal an integer that fits decimal
text, a character literal one character. No word and no fixed spelling is a literal or an end mark, as
long as words are resolved to canonical kinds only.
-/

namespace SetLang

/-! ## Literals -/

/-- The value of a literal is a natural number that fits decimal text or one character, as its kind
says. -/
def Token.HasPayload (t : Token) : Prop :=
  (t.kind = .integer → ∃ n : Nat, n < Nat.pow 10 decimalDigitLimit ∧ t.value = .int n) ∧
    (t.kind = .quotedChar ∨ t.kind = .testedChar → ∃ c, t.value = charValue c)

/-- Words are resolved to canonical kinds. -/
def Resolver.Canonical (resolve : Resolver) : Prop :=
  ∀ word kind, resolve word = some kind → kind ∈ TokenKind.canonical

theorem AliasTable.Reachable.canonical_kind? {table : AliasTable} (h : table.Reachable) :
    Resolver.Canonical table.kind? :=
  fun _ _ => h.kind_mem_canonical

/-- Resolves words by a table; without a table no word is an alias. -/
def Resolver.ofTable? (table : Option AliasTable) : Resolver :=
  table.elim (fun _ => none) AliasTable.kind?

theorem Resolver.canonical_ofTable? {table : Option AliasTable}
    (h : ∀ t ∈ table, t.Reachable) : (ofTable? table).Canonical := by
  cases table with
  | none =>
    intro word kind hkind
    cases hkind
  | some table => exact (h table rfl).canonical_kind?

theorem AliasTable.reachable_of_mem_some_canonical {table : AliasTable}
    (h : table ∈ some AliasTable.canonical) : table.Reachable := by
  rw [← Option.mem_some_iff.1 h]
  exact .canonical

/-- A token of a canonical kind is no literal. -/
theorem Token.hasPayload_of_canonical {t : Token} (h : t.kind ∈ TokenKind.canonical) :
    t.HasPayload := by
  refine ⟨fun hkind => ?_, fun hkind => ?_⟩
  · rw [hkind] at h
    exact absurd h (by decide)
  · rcases hkind with hkind | hkind
    · rw [hkind] at h
      exact absurd h (by decide)
    · rw [hkind] at h
      exact absurd h (by decide)

theorem spelled?_mem_canonical {s : String} {kind : TokenKind} (h : spelled? s = some kind) :
    kind ∈ TokenKind.canonical := by
  have hall : ∀ p ∈ spellings, p.2 ∈ TokenKind.canonical := by decide
  exact hall (s, kind) (mem_spellings_of_spelled? h)

/-! ## Lexemes -/

section

variable {resolve : Resolver} {x rest : List Char} {kind : TokenKind} {value : Value}

theorem IsWordKind.mem_canonical_or_eq (hresolve : resolve.Canonical) {word : String}
    (h : IsWordKind resolve word kind) : kind ∈ TokenKind.canonical ∨ kind = .word := by
  cases h with
  | spelled h => exact .inl (spelled?_mem_canonical h)
  | aliased _ h => exact .inl (hresolve _ _ h)
  | plain => exact .inr rfl

/-- A lexeme carries what its kind calls for. -/
theorem IsLexeme.hasPayload (hresolve : resolve.Canonical) {t : Token}
    (h : IsLexeme resolve x rest t.kind t.value) : t.HasPayload := by
  obtain ⟨kind, value, place⟩ := t
  cases h with
  | word _ _ _ hkind =>
    rcases hkind.mem_canonical_or_eq hresolve with hcanonical | rfl
    · exact Token.hasPayload_of_canonical hcanonical
    · exact ⟨by simp, by simp⟩
  | integer hdigits _ hlength => exact ⟨fun _ => ⟨_, natOfDigits_lt hdigits hlength, rfl⟩, by simp⟩
  | quoted => exact ⟨by simp, fun _ => ⟨_, rfl⟩⟩
  | tested => exact ⟨by simp, fun _ => ⟨_, rfl⟩⟩
  | mark _ hlongest =>
    exact Token.hasPayload_of_canonical (spelled?_mem_canonical hlongest.1)
  | unknown => exact ⟨by simp, by simp⟩

/-- No lexeme is an end mark. -/
theorem IsLexeme.kind_ne_endOfText (hresolve : resolve.Canonical)
    (h : IsLexeme resolve x rest kind value) : kind ≠ .endOfText := by
  have hcanonical (h : kind ∈ TokenKind.canonical) : kind ≠ .endOfText := by
    rintro rfl
    exact absurd h (by decide)
  cases h with
  | word _ _ _ hkind =>
    rcases hkind.mem_canonical_or_eq hresolve with hmem | rfl
    · exact hcanonical hmem
    · decide
  | mark _ hlongest => exact hcanonical (spelled?_mem_canonical hlongest.1)
  | integer | quoted | tested | unknown => decide

/-- An integer that stands in a text is not negative, and it fits decimal text. -/
theorem IsLexeme.fitsDecimal {n : Int} (h : IsLexeme resolve x rest kind (.int n)) :
    0 ≤ n ∧ Integer.FitsDecimal n := by
  cases h with
  | integer hdigits _ hlength =>
    refine ⟨Int.natCast_nonneg _, ?_⟩
    rw [Integer.FitsDecimal, Int.natAbs_natCast]
    exact natOfDigits_lt hdigits hlength

end

/-! ## Texts -/

namespace Feed

variable {resolve : Resolver} {text : List Char} {t : Token}

/-- A token of a text stands for a lexeme of it. -/
theorem exists_isLexeme_of_mem_ofCursor {c : Cursor} (h : .ok t ∈ (ofCursor resolve c).items) :
    ∃ x rest, IsLexeme resolve x rest t.kind t.value := by
  induction c using Cursor.induction_on_tokens resolve with
  | step c ih =>
    cases htoken : c.token? resolve with
    | none =>
      rw [ofCursor_of_none htoken] at h
      cases h
    | some result =>
      rw [ofCursor_of_some htoken] at h
      rcases List.mem_cons.1 h with hitem | hmem
      · obtain ⟨item, after⟩ := result
        obtain rfl : .ok t = item := hitem
        obtain ⟨first, text, hahead, hlexeme⟩ := Cursor.exists_of_token?_eq_some htoken
        obtain ⟨x, rest, -, hx, -⟩ := Cursor.reads_of_lexeme hahead hlexeme
        exact ⟨x, rest, hx⟩
      · exact ih result htoken hmem

/-- The tokens of a text carry what their kinds call for. -/
theorem hasPayload_of_mem_ofText (hresolve : resolve.Canonical)
    (h : .ok t ∈ (ofText resolve text).items) : t.HasPayload := by
  obtain ⟨x, rest, hx⟩ := exists_isLexeme_of_mem_ofCursor h
  exact hx.hasPayload hresolve

theorem hasPayload_last (feed : Feed) : feed.last.HasPayload :=
  ⟨by simp [feed.last_kind], by simp [feed.last_kind]⟩

end Feed

end SetLang
