import SetLang.Proofs.Alias.Extension
import SetLang.Proofs.Token.Boundary

/-!
# Tokens with and without aliases

A table of aliases changes the kinds of plain words and nothing else: with and without it a text has
the same faults, and otherwise as many tokens, of the same values at the same places. An alias of a
reachable table is a plain word without it, so no alias is out of reach.
-/

namespace SetLang

/-! ## Resolved tokens -/

/-- A token without aliases as a resolver makes it: a plain word gets the kind that it stands for. -/
def Token.resolved (resolve : Resolver) (t : Token) : Token :=
  match t.kind, t.value with
  | .word, .text word => { t with kind := (resolve word).getD .word }
  | _, _ => t

theorem Token.resolved_of_ne {t : Token} (h : t.kind ≠ .word) (resolve : Resolver) :
    t.resolved resolve = t := by
  unfold resolved
  split
  · next hkind _ => exact absurd hkind h
  · rfl

theorem TokenKind.ne_word_of_mem_canonical {kind : TokenKind} (h : kind ∈ canonical) :
    kind ≠ .word := by
  rintro rfl
  exact absurd h (by decide)

/-- The token of a word is that of the word without aliases, resolved. -/
theorem Token.resolved_word (resolve : Resolver) (word : String) (place : Text.Place) :
    Token.resolved resolve ⟨wordKind (.ofTable? none) word, .text word, place⟩ =
      ⟨wordKind resolve word, .text word, place⟩ := by
  rw [wordKind, wordKind]
  cases hspelled : spelled? word with
  | none => rfl
  | some kind =>
    exact resolved_of_ne (TokenKind.ne_word_of_mem_canonical (spelled?_mem_canonical hspelled)) _

/-- What comes of a lexeme without aliases, as a resolver makes it. -/
def resolvedResult (resolve : Resolver) (result : Except Fault Token × Cursor) :
    Except Fault Token × Cursor :=
  (result.1.map (Token.resolved resolve), result.2)

/-- What is no word comes out the same. -/
theorem resolvedResult_of_ne (resolve : Resolver) {result : Except Fault Token × Cursor}
    (h : ∀ t, result.1 = .ok t → t.kind ≠ .word) : resolvedResult resolve result = result := by
  obtain ⟨item, after⟩ := result
  cases item with
  | error fault => rfl
  | ok t => rw [resolvedResult, Except.map, Token.resolved_of_ne (h t rfl)]

variable (resolve : Resolver)

namespace Cursor

variable {c : Cursor} {t : Token}

theorem kind_of_integer (h : c.integer.1 = .ok t) : t.kind = .integer := by
  rw [integer] at h
  split at h
  · cases h
  · rw [← Except.ok.inj h]

theorem kind_of_charLiteral {quote : String} {kind : TokenKind}
    (h : (c.charLiteral quote kind).1 = .ok t) : t.kind = kind := by
  rw [charLiteral] at h
  cases hread : readLiteral quote c.ahead with
  | mk taken ending =>
    rw [hread] at h
    cases ending with
    | closed value => rw [← Except.ok.inj h]
    | failed cause => cases h
    | pastEnd => cases h

theorem kind_mem_canonical_of_spelling? {after : Cursor} (h : c.spelling? = some (t, after)) :
    t.kind ∈ TokenKind.canonical := by
  obtain ⟨⟨x, kind⟩, hspelling, hpair⟩ := Option.map_eq_some_iff.1 h
  obtain ⟨rfl, rfl⟩ := Prod.mk.inj hpair
  obtain ⟨rest, -, hlongest⟩ := exists_isLongestSpelling_of_spellingAt? hspelling
  exact spelled?_mem_canonical hlongest.1

/-- A lexeme makes the token that it makes without aliases, resolved. -/
theorem lexeme_resolved (c : Cursor) (first : Char) :
    c.lexeme resolve first = resolvedResult resolve (c.lexeme (.ofTable? none) first) := by
  unfold lexeme
  by_cases hword : isWordStart first = true
  · rw [if_pos hword, if_pos hword, word, word, resolvedResult, Except.map, Token.resolved_word]
  · rw [if_neg hword, if_neg hword]
    -- no other lexeme is resolved at all
    refine (resolvedResult_of_ne resolve fun t ht => ?_).symm
    split at ht
    · rw [kind_of_integer ht]
      decide
    · split at ht
      · rw [kind_of_charLiteral ht]
        decide
      · split at ht
        · rw [kind_of_charLiteral ht]
          decide
        · split at ht
          · next hspelling =>
            rw [← Except.ok.inj ht]
            exact TokenKind.ne_word_of_mem_canonical (kind_mem_canonical_of_spelling? hspelling)
          · rw [← Except.ok.inj ht]
            show TokenKind.unknown ≠ .word
            decide

theorem token?_resolved (c : Cursor) :
    c.token? resolve = (c.token? (.ofTable? none)).map (resolvedResult resolve) := by
  rw [token?, token?, Option.map_map]
  congr 1
  funext first
  exact lexeme_resolved resolve _ first

end Cursor

namespace Scan

theorem fromCursor_resolved (fuel : Nat) (c : Cursor) :
    fromCursor resolve fuel c =
      ⟨(fromCursor (.ofTable? none) fuel c).results.map (resolvedResult resolve),
        (fromCursor (.ofTable? none) fuel c).final⟩ := by
  induction fuel generalizing c with
  | zero => rfl
  | succ fuel ih =>
    rw [fromCursor, fromCursor, Cursor.token?_resolved]
    cases c.token? (.ofTable? none) with
    | none => rfl
    | some result =>
      show (⟨resolvedResult resolve result :: (fromCursor resolve fuel result.2).results,
        (fromCursor resolve fuel result.2).final⟩ : Scan) = _
      rw [ih]
      rfl

theorem collect_resolved (final : Cursor) (done : List Token)
    (results : List (Except Fault Token × Cursor)) :
    (collect final (done.map (Token.resolved resolve)) (results.map (resolvedResult resolve))).1 =
      (collect final done results).1.map (List.map (Token.resolved resolve)) := by
  induction results generalizing done with
  | nil =>
    have hend : (Token.endAt final.place).resolved resolve = .endAt final.place := rfl
    simp [collect, Except.map, hend]
  | cons first rest ih =>
    obtain ⟨item, after⟩ := first
    cases item with
    | error fault => rfl
    | ok t => exact ih (t :: done)

end Scan

/-- With aliases a text has the tokens, or the fault, that it has without them, but for the kinds of
plain words. -/
theorem tokenize_resolved (text : List Char) :
    tokenize resolve text =
      (tokenize (.ofTable? none) text).map (List.map (Token.resolved resolve)) := by
  rw [tokenize, tokenize, Scan.tokens, Scan.tokens, Scan.ofCursor, Scan.ofCursor,
    Scan.fromCursor_resolved]
  exact Scan.collect_resolved resolve _ [] _

/-! ## Plain words -/

section

variable {resolve : Resolver} {p : Text.Place} {text : List Char} {ts : List Token}

/-- A plain word is a text. -/
theorem IsLexeme.exists_text_of_word {x rest : List Char} {value : Value}
    (h : IsLexeme resolve x rest .word value) : ∃ word, value = .text word := by
  cases h with
  | word => exact ⟨_, rfl⟩
  | mark => exact ⟨_, rfl⟩

/-- A lexeme that is no alias is one without aliases. -/
theorem IsLexeme.of_unresolved {x rest : List Char} {kind : TokenKind} {value : Value}
    (h : IsLexeme resolve x rest kind value) (hx : resolve (String.ofList x) = none) :
    IsLexeme (.ofTable? none) x rest kind value := by
  cases h with
  | word hfirst hmore hend hkind =>
    refine .word hfirst hmore hend ?_
    cases hkind with
    | spelled hspelled => exact .spelled hspelled
    | aliased _ halias => cases hx.symm.trans halias
    | plain hspelled => exact .plain hspelled rfl
  | integer hdigits hend hlength => exact .integer hdigits hend hlength
  | quoted hbody => exact .quoted hbody
  | tested hbody => exact .tested hbody
  | mark hsymbol hlongest => exact .mark hsymbol hlongest
  | unknown hsymbol hnone => exact .unknown hsymbol hnone

theorem Tokenized.exists_text_of_word (h : Tokenized resolve p text ts) :
    ∀ t ∈ ts, t.kind = .word → ∃ word, t.value = .text word := by
  induction h with
  | done hgap =>
    intro t ht hkind
    rw [List.mem_singleton.1 ht] at hkind
    cases hkind
  | lexeme hgap hnone hx ht _ ih =>
    intro u hu hkind
    rcases List.mem_cons.1 hu with rfl | hmem
    · rw [hkind] at hx
      exact hx.exists_text_of_word
    · exact ih u hmem hkind

end

/-! ## Aliases as lexemes -/

namespace AliasTable

variable {table : AliasTable} {x : List Char} {kind : TokenKind}

/-- An alias is a lexeme of the kind that it stands for. -/
theorem Reachable.isLexeme (htable : table.Reachable)
    (h : table.kind? (String.ofList x) = some kind) :
    IsLexeme table.kind? x [] kind (.text (String.ofList x)) := by
  obtain ⟨⟨first, more, hlist, hfirst, hmore⟩, hspelled⟩ := htable.isAliasWord h
  rw [String.toList_ofList] at hlist
  subst hlist
  exact .word hfirst hmore (by simp) (.aliased hspelled h)

/-- A text that is an alias is one token of the kind that it stands for. -/
theorem Reachable.tokenize_alias (htable : table.Reachable) {word : String}
    (h : table.kind? word = some kind) :
    tokenize table.kind? word.toList =
      .ok [⟨kind, .text word, .origin⟩, .endAt (.behind word.toList)] := by
  have hx : IsLexeme table.kind? word.toList [] kind (.text word) := by
    have hlexeme := htable.isLexeme (x := word.toList) (by rwa [String.ofList_toList])
    rwa [String.ofList_toList] at hlexeme
  have hkind := htable.kind_mem_canonical h
  have hnone : BeginsNoGap (word.toList ++ []) := by
    refine hx.beginsNoGap ?_ []
    rintro rfl
    exact absurd hkind (by decide)
  have hcut := Tokenized.lexeme (p := .origin) (t := ⟨kind, .text word, .origin⟩) (.nil _) hnone hx
    rfl (.done (.nil []))
  rw [List.append_nil] at hcut
  rw [tokenize_eq_ok_iff, ← Text.Place.afterAll_origin]
  exact hcut

end AliasTable

end SetLang
