import SetLang.Proofs.Program.Derivation
import SetLang.Proofs.Token.Resolved
import Mathlib.Data.List.Forall2

/-!
# Aliases and fixed spellings

Aliases are another way to write what can be written without them. Main statement: under a reachable
table of aliases a text has the tokens or the fault that it has without aliases, but for the kinds of
the aliases, each alias is a token of its kind, and where every alias of a text is replaced by a fixed
spelling of its kind, what is left is parsed without aliases to the tree of the text.
-/

namespace SetLang

/-! ## Respelled texts -/

/-- A text and what becomes of it when each alias in it is replaced by a fixed spelling of its kind
with blanks around it. The gaps and all other lexemes stay as they are. -/
inductive Respells (table : AliasTable) : List Char → List Char → Prop where
  | done {g : List Char} : IsGap g [] → Respells table g g
  | keep {g x rest rest' : List Char} {kind : TokenKind} {value : Value} :
      IsGap g (x ++ rest) → BeginsNoGap (x ++ rest) → IsLexeme table.kind? x rest kind value →
      table.kind? (String.ofList x) = none → Respells table rest rest' →
      Respells table (g ++ (x ++ rest)) (g ++ (x ++ rest'))
  | replace {g x y rest rest' : List Char} {kind : TokenKind} {value : Value} :
      IsGap g (x ++ rest) → BeginsNoGap (x ++ rest) → IsLexeme table.kind? x rest kind value →
      table.kind? (String.ofList x) = some kind → spelled? (String.ofList y) = some kind →
      Respells table rest rest' →
      Respells table (g ++ (x ++ rest)) (g ++ (' ' :: (y ++ ' ' :: rest')))

/-- Each canonical kind has a fixed spelling. -/
theorem exists_spelled?_of_mem_canonical {kind : TokenKind} (h : kind ∈ TokenKind.canonical) :
    ∃ y, spelled? (String.ofList y) = some kind := by
  have hall : ∀ k ∈ TokenKind.canonical, ∃ p ∈ spellings, spelled? p.1 = some k := by decide
  obtain ⟨p, -, hp⟩ := hall kind h
  exact ⟨p.1.toList, by rwa [String.ofList_toList]⟩

namespace Respells

variable {table : AliasTable} {text text' : List Char} {p : Text.Place} {ts : List Token}

/-- Up to the next gap nothing is replaced but by what begins with a blank. -/
theorem agreesUpToGap (h : Respells table text text') : AgreesUpToGap text text' := by
  induction h with
  | done => exact .refl _
  | @keep g x _ _ _ _ _ _ _ _ _ ih => exact (ih.append x).append g
  | @replace g x y =>
    refine (AgreesUpToGap.of_head? _ ?_).append g
    intro c hc
    obtain rfl := Option.some.inj hc
    exact .inl (by decide)

/-- Every text without lexical faults can be respelled. -/
theorem exists_of_tokenized (htable : table.Reachable) (h : Tokenized table.kind? p text ts) :
    ∃ text', Respells table text text' := by
  induction h with
  | done hgap => exact ⟨_, .done hgap⟩
  | @lexeme p g x rest t ts hgap hnone hx ht _ ih =>
    obtain ⟨rest', hrest⟩ := ih
    cases halias : table.kind? (String.ofList x) with
    | none => exact ⟨_, .keep hgap hnone hx halias hrest⟩
    | some kind =>
      obtain ⟨y, hy⟩ := exists_spelled?_of_mem_canonical (htable.kind_mem_canonical halias)
      have hkind := (hx.unique (htable.isLexeme halias)).1
      exact ⟨_, .replace hgap hnone hx (hkind ▸ halias) (hkind ▸ hy) hrest⟩

/-- What a text is cut into and what its respelled form is cut into are like tokens. -/
theorem exists_tokenized (htable : table.Reachable) (h : Respells table text text')
    (p p' : Text.Place) :
    ∃ ts ts' last last', Tokenized table.kind? p text (ts ++ [.endAt last]) ∧
      Tokenized (.ofTable? none) p' text' (ts' ++ [.endAt last']) ∧
      List.Forall₂ Token.Alike ts ts' := by
  induction h generalizing p p' with
  | done hgap => exact ⟨[], [], _, _, .done hgap, .done hgap, .nil⟩
  | @keep g x rest rest' kind value hgap hnone hx halias hrest ih =>
    obtain ⟨ts, ts', last, last', hts, hts', halike⟩ := ih (p.afterAll (g ++ x)) (p'.afterAll (g ++ x))
    have hbegins : BeginsNoGap (x ++ rest') := by
      obtain ⟨c, more, rfl⟩ := List.exists_cons_of_ne_nil hx.ne_nil
      exact hnone
    have hx' := (hx.of_unresolved halias).of_agreesUpToGap hrest.agreesUpToGap
    exact ⟨⟨kind, value, p.afterAll g⟩ :: ts, ⟨kind, value, p'.afterAll g⟩ :: ts', last, last',
      .lexeme hgap hnone hx rfl hts,
      .lexeme (hgap.of_beginsNoGap hnone hx.append_ne_nil _) hbegins hx' rfl hts',
      .cons ⟨rfl, fun _ => rfl⟩ halike⟩
  | @replace g x y rest rest' kind value hgap hnone hx halias hy hrest ih =>
    obtain ⟨ts, ts', last, last', hts, hts', halike⟩ :=
      ih (p.afterAll (g ++ x)) ((p'.afterAll (g ++ [' '] ++ y)).afterAll [' '])
    have hblank : Text.isBlank ' ' = true := by decide
    have hcanonical := htable.kind_mem_canonical halias
    have hend : IsLexeme (.ofTable? none) y [] kind (.text (String.ofList y)) :=
      isLexeme_of_spelled? _ hy
    have hbegins : BeginsNoGap (y ++ ' ' :: rest') := by
      refine hend.beginsNoGap ?_ _
      rintro rfl
      exact absurd hcanonical (by decide)
    have hy' := hend.of_agreesUpToGap (.append_right (.inl hblank) [] rest')
    have hspace : IsGap [' '] (y ++ ' ' :: rest') := .blank hblank (.nil _)
    have hbefore : IsGap (g ++ [' ']) (y ++ ' ' :: rest') :=
      .append (hgap.of_beginsNoGap hnone hx.append_ne_nil _) hspace
    have hbehind := Tokenized.gap_append (.blank hblank (.nil rest')) hts'
    have hcut := Tokenized.lexeme (t := ⟨kind, .text (String.ofList y), p'.afterAll (g ++ [' '])⟩)
      hbefore hbegins hy' rfl hbehind
    rw [List.append_assoc] at hcut
    refine ⟨⟨kind, value, p.afterAll g⟩ :: ts, _ :: ts', last, last', .lexeme hgap hnone hx rfl hts,
      hcut, .cons ⟨rfl, ?_⟩ halike⟩
    -- an alias is no literal
    rintro (rfl | rfl | rfl)
    · exact absurd hcanonical (by decide)
    · exact absurd hcanonical (by decide)
    · exact absurd hcanonical (by decide)

end Respells

/-! ## Transparency -/

/-- Aliases are transparent. Under a reachable table a text has a lexical fault exactly if it has that
fault without aliases. Otherwise it has as many tokens, of the same values at the same places, and of
the same kinds but for plain words, which are of the kinds that they stand for. Every alias is by
itself one token of its kind. And a text that is parsed can be respelled, and in whatever way its
aliases are replaced by fixed spellings of their kinds, what comes of it is parsed without aliases to
the same tree. -/
theorem aliases_transparent (table : AliasTable) (htable : table.Reachable) :
    (∀ text fault, tokenize table.kind? text = .error fault ↔
      tokenize (.ofTable? none) text = .error fault) ∧
    (∀ text us, tokenize (.ofTable? none) text = .ok us →
      ∃ ts, tokenize table.kind? text = .ok ts ∧
        List.Forall₂ (fun t u => t.value = u.value ∧ t.place = u.place ∧
          (u.kind ≠ .word → t.kind = u.kind) ∧
          (u.kind = .word → ∃ word, u.value = .text word ∧
            t.kind = (table.kind? word).getD .word)) ts us) ∧
    (∀ word kind, table.kind? word = some kind →
      tokenize table.kind? word.toList =
        .ok [⟨kind, .text word, .origin⟩, .endAt (.behind word.toList)]) ∧
    ∀ text tree, parseText table.kind? text = .ok tree →
      (∃ text', Respells table text text') ∧
      ∀ text', Respells table text text' → parseText (.ofTable? none) text' = .ok tree := by
  have hnone : Resolver.Canonical (.ofTable? none) := Resolver.canonical_ofTable? (by simp)
  refine ⟨fun text fault => ?_, fun text us hus => ?_, fun word kind => htable.tokenize_alias,
    fun text tree h => ⟨?_, fun text' hrespells => ?_⟩⟩
  · rw [tokenize_resolved]
    cases tokenize (.ofTable? none) text with
    | ok us => simp [Except.map]
    | error cause => simp [Except.map]
  · refine ⟨us.map (Token.resolved table.kind?), by rw [tokenize_resolved, hus]; rfl, ?_⟩
    rw [List.forall₂_map_left_iff, List.forall₂_same]
    intro u hu
    by_cases hword : u.kind = .word
    · obtain ⟨word, hvalue⟩ := (tokenize_eq_ok_iff.1 hus).exists_text_of_word u hu hword
      obtain ⟨kind, value, place⟩ := u
      obtain rfl : kind = .word := hword
      obtain rfl : value = .text word := hvalue
      exact ⟨rfl, rfl, fun hne => absurd rfl hne, fun _ => ⟨word, rfl, rfl⟩⟩
    · rw [Token.resolved_of_ne hword]
      exact ⟨rfl, rfl, fun _ => rfl, fun hkind => absurd hkind hword⟩
  · obtain ⟨ts, hts⟩ := exists_tokenized_of_parseText htable.canonical_kind? h
    exact Respells.exists_of_tokenized htable hts
  · obtain ⟨ts, ts', last, last', hts, hts', halike⟩ :=
      hrespells.exists_tokenized htable .origin .origin
    exact (parseText_eq_ok_iff_of_alike htable.canonical_kind? hnone hts hts' halike).1 h

/-- Two default words, of which the second one reaches up to the end of the text. -/
theorem aliases_transparent_flip :
    AliasTable.Reachable .canonical ∧ Respells .canonical "flip var".toList " *   % ".toList ∧
      parseText (.ofTable? none) " *   % ".toList =
        .ok (.mk .program .absent [.mk .flip .absent [.leaf .percent]]) := by
  have hparse : parseText AliasTable.canonical.kind? "flip var".toList =
      .ok (.mk .program .absent [.mk .flip .absent [.leaf .percent]]) := by rfl
  have hflip : IsLexeme AliasTable.canonical.kind? "flip".toList [] .asterisk (.text "flip") :=
    AliasTable.Reachable.canonical.isLexeme (by decide)
  have hvar : IsLexeme AliasTable.canonical.kind? "var".toList [] .percent (.text "var") :=
    AliasTable.Reachable.canonical.isLexeme (by decide)
  have hbehind := hflip.of_agreesUpToGap (.append_right (c := ' ') (.inl (by decide)) [] "var".toList)
  have hrespells : Respells .canonical "flip var".toList " *   % ".toList :=
    .replace (y := ['*']) (.nil _) (hbehind.beginsNoGap (by decide) _) hbehind rfl (by decide)
      (.replace (y := ['%']) (.blank (by decide) (.nil _)) (hvar.beginsNoGap (by decide) _) hvar rfl
        (by decide) (.done (.nil [])))
  obtain ⟨-, -, -, htransparent⟩ := aliases_transparent .canonical .canonical
  exact ⟨.canonical, hrespells, (htransparent _ _ hparse).2 _ hrespells⟩

end SetLang
