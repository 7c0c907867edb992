import SetLang.Proofs.Alias.Reachable
import SetLang.Proofs.Text.Wide
import SetLang.Proofs.Token.Lexeme

/-!
# Extensions of tables

What a configuration does to a table that it is accepted by: the bindings that are there stay in
front as they are, and behind them come bindings of words that were not bound before. Each of those
words may be an alias, and none of them comes twice.
-/

namespace SetLang

/-! ## Aliases -/

/-- A text that may be an alias: a word of ASCII that is no fixed spelling. -/
structure IsAliasWord (word : String) : Prop where
  exists_toList_eq : ∃ first more, word.toList = first :: more ∧ isWordStart first = true ∧
    ∀ c ∈ more, isWordChar c = true
  spelled?_eq_none : spelled? word = none

theorem toNat_lt_of_isWordChar {c : Char} (h : isWordChar c = true) : c.toNat < 128 := by
  have hcode := toNat_of_isWordChar h
  omega

theorem isWord_iff {word : String} : isWord word = true ↔
    ∃ first more, word.toList = first :: more ∧ isWordStart first = true ∧
      ∀ c ∈ more, isWordChar c = true := by
  unfold isWord
  cases word.toList with
  | nil => simp
  | cons first more => simp

/-- An alias as it is given that may be one: it is the wide text of such a word. -/
def IsAlias (given : WideText) : Prop :=
  ∃ word : String, given = word ∧ IsAliasWord word

/-- What is taken for an alias is the word that it is, and this may be one. -/
theorem AliasTable.checkAlias_eq_ok_iff {given : WideText} {word : String} :
    checkAlias given = .ok word ↔ given = word ∧ IsAliasWord word := by
  constructor
  · intro h
    unfold checkAlias at h
    split at h
    · cases h
    · next hfilter =>
      rw [Option.filter_eq_some_iff, WideText.string?_eq_some_iff] at hfilter
      split at h
      · cases h
      · next hspelled =>
        obtain rfl := Except.ok.inj h
        exact ⟨hfilter.1, isWord_iff.1 hfilter.2, by simpa using hspelled⟩
  · rintro ⟨rfl, hword, hspelled⟩
    have hstring : (word : WideText).string? = some word := WideText.string?_eq_some_iff.2 rfl
    rw [checkAlias, hstring, Option.filter_some, if_pos (isWord_iff.2 hword)]
    dsimp only
    rw [hspelled]
    rfl

theorem AliasTable.exists_checkAlias_eq_error {given : WideText} (h : ¬IsAlias given) :
    ∃ cause, checkAlias given = .error (.aliases cause) := by
  cases hcheck : checkAlias given with
  | ok word => exact absurd ⟨word, checkAlias_eq_ok_iff.1 hcheck⟩ h
  | error fault =>
    unfold checkAlias at hcheck
    split at hcheck
    · obtain rfl := Except.error.inj hcheck
      exact ⟨_, rfl⟩
    · split at hcheck
      · obtain rfl := Except.error.inj hcheck
        exact ⟨_, rfl⟩
      · cases hcheck

/-! ## Bindings -/

namespace Bindings

variable {bindings old new : Bindings} {word : String} {kind : TokenKind}

/-- The words that are bound. -/
def words (bindings : Bindings) : List String :=
  bindings.map Prod.fst

theorem mem_words_of_mem (h : (word, kind) ∈ bindings) : word ∈ bindings.words :=
  List.mem_map_of_mem h

theorem lookup_eq_none_iff_notMem : bindings.lookup word = none ↔ word ∉ bindings.words := by
  rw [List.lookup_eq_none_iff]
  constructor
  · intro h hmem
    obtain ⟨p, hp, rfl⟩ := List.mem_map.1 hmem
    exact absurd (h p hp) (by simp)
  · intro h p hp
    rw [bne_iff_ne]
    rintro rfl
    exact h (List.mem_map_of_mem hp)

theorem mem_of_lookup_eq_some (h : bindings.lookup word = some kind) : (word, kind) ∈ bindings := by
  obtain ⟨before, after, hsplit, -⟩ := List.lookup_eq_some_iff.1 h
  rw [hsplit]
  simp

/-- Where no word is bound twice, what is bound is found. -/
theorem lookup_eq_some_of_mem (hnodup : bindings.words.Nodup) (h : (word, kind) ∈ bindings) :
    bindings.lookup word = some kind := by
  obtain ⟨before, after, rfl⟩ := List.append_of_mem h
  refine List.lookup_eq_some_iff.2 ⟨before, after, rfl, fun p hp => ?_⟩
  rw [words, List.map_append, List.nodup_append] at hnodup
  simpa using (hnodup.2.2 _ (List.mem_map_of_mem hp) _ List.mem_cons_self).symm

/-- A word that stands for a kind already is bound to it without effect. -/
theorem put_eq_self (h : bindings.lookup word = some kind) : put word kind bindings = bindings := by
  induction bindings with
  | nil => cases h
  | cons first rest ih =>
    obtain ⟨other, bound⟩ := first
    rw [put]
    by_cases hother : other = word
    · subst hother
      rw [List.lookup_cons_self] at h
      rw [if_pos rfl, Option.some.inj h]
    · have hne : (word == other) = false := by simpa using Ne.symm hother
      rw [List.lookup_cons, hne] at h
      rw [if_neg hother, ih h]

/-- A word that stands for nothing is bound behind all others. -/
theorem put_eq_append (h : word ∉ bindings.words) :
    put word kind bindings = bindings ++ [(word, kind)] := by
  induction bindings with
  | nil => rfl
  | cons first rest ih =>
    obtain ⟨hother, hrest⟩ := not_or.1 fun hmem => h (List.mem_cons.2 hmem)
    rw [put, if_neg (Ne.symm hother), ih hrest, List.cons_append]

/-! ## Bindings that may be added -/

/-- Bindings that may be added to some old ones: no word comes twice, each may be an alias, and none
stands for another kind already. -/
structure AddableTo (old new : Bindings) : Prop where
  nodup : new.words.Nodup
  isAliasWord : ∀ word ∈ new.words, IsAliasWord word
  agrees : ∀ word kind bound, (word, kind) ∈ new → old.lookup word = some bound → bound = kind

theorem addableTo_nil : AddableTo old [] :=
  ⟨List.nodup_nil, by simp [words], by simp⟩

/-- One more binding of a new word may be added. -/
theorem AddableTo.concat (h : AddableTo old new) (hword : IsAliasWord word)
    (hfresh : new.lookup word = none) (hagrees : ∀ bound, old.lookup word = some bound → bound = kind) :
    AddableTo old (new ++ [(word, kind)]) := by
  rw [lookup_eq_none_iff_notMem] at hfresh
  have hwords : words (new ++ [(word, kind)]) = new.words ++ [word] := by simp [words]
  refine ⟨?_, ?_, ?_⟩
  · rw [hwords, List.nodup_append]
    refine ⟨h.nodup, by simp, ?_⟩
    rintro other hother w hw rfl
    exact hfresh (List.mem_singleton.1 hw ▸ hother)
  · intro other hother
    rw [hwords, List.mem_append, List.mem_singleton] at hother
    rcases hother with hother | rfl
    · exact h.isAliasWord other hother
    · exact hword
  · intro other bound found hmem
    rcases List.mem_append.1 hmem with hmem | hmem
    · exact h.agrees other bound found hmem
    · obtain ⟨rfl, rfl⟩ := Prod.mk.inj (List.mem_singleton.1 hmem)
      exact hagrees found

/-- A binding that agrees with the old and the new ones is put in without harm. -/
theorem AddableTo.put (h : AddableTo old new) (hword : IsAliasWord word)
    (hbound : ∀ bound, (new.lookup word).or (old.lookup word) = some bound → bound = kind) :
    AddableTo old (Bindings.put word kind new) := by
  cases hlookup : new.lookup word with
  | some bound =>
    obtain rfl : bound = kind := hbound bound (by rw [hlookup]; rfl)
    rwa [put_eq_self hlookup]
  | none =>
    rw [put_eq_append (lookup_eq_none_iff_notMem.1 hlookup)]
    refine h.concat hword hlookup fun bound hold => hbound bound ?_
    rw [hlookup, Option.none_or, hold]

theorem AddableTo.tail {first : String × TokenKind} (h : AddableTo old (first :: new)) :
    AddableTo old new :=
  ⟨(List.nodup_cons.1 h.nodup).2, fun word hword => h.isAliasWord word (List.mem_cons_of_mem _ hword),
    fun word kind bound hmem => h.agrees word kind bound (List.mem_cons_of_mem _ hmem)⟩

/-- What may still be added after the first of some bindings. -/
theorem AddableTo.tail_concat (h : AddableTo old ((word, kind) :: new)) :
    AddableTo (old ++ [(word, kind)]) new := by
  refine ⟨h.tail.nodup, h.tail.isAliasWord, fun other found bound hmem hlookup => ?_⟩
  rw [List.lookup_append, Option.or_eq_some_iff] at hlookup
  rcases hlookup with hlookup | ⟨-, hlookup⟩
  · exact h.tail.agrees other found bound hmem hlookup
  · -- the first word does not come again
    obtain ⟨rfl, -⟩ := Prod.mk.inj (List.mem_singleton.1 (mem_of_lookup_eq_some hlookup))
    exact absurd (mem_words_of_mem hmem) (List.nodup_cons.1 h.nodup).1

/-- Adding bindings leaves the old ones in front and puts those of new words behind them. -/
theorem AddableTo.exists_putAll_eq (h : AddableTo old new) :
    ∃ added, old.putAll new = old ++ added ∧ added.Sublist new ∧
      ∀ word ∈ added.words, word ∉ old.words := by
  induction new generalizing old with
  | nil => exact ⟨[], (List.append_nil old).symm, List.Sublist.refl [], by simp [words]⟩
  | cons first rest ih =>
    obtain ⟨word, kind⟩ := first
    have hstep : old.putAll ((word, kind) :: rest) = (Bindings.put word kind old).putAll rest := rfl
    cases hlookup : old.lookup word with
    | some bound =>
      obtain rfl := h.agrees word kind bound List.mem_cons_self hlookup
      rw [hstep, put_eq_self hlookup]
      obtain ⟨added, hadded, hsub, hfresh⟩ := ih h.tail
      exact ⟨added, hadded, hsub.cons _, hfresh⟩
    | none =>
      have hword := lookup_eq_none_iff_notMem.1 hlookup
      rw [hstep, put_eq_append hword]
      obtain ⟨added, hadded, hsub, hfresh⟩ := ih h.tail_concat
      refine ⟨(word, kind) :: added, by rw [hadded, List.append_assoc]; rfl, hsub.cons_cons _, ?_⟩
      intro other hother
      rcases List.mem_cons.1 hother with rfl | hmem
      · exact hword
      · have hboth := hfresh other hmem
        rw [words, List.map_append, List.mem_append, not_or] at hboth
        exact hboth.1

end Bindings

/-! ## Configurations -/

namespace AliasTable

/-- What is accepted may be added, whatever collisions are found. -/
theorem addableTo_of_accept {old new result : Bindings} {asked : WideBindings}
    {collisions found : List Collision} (hnew : old.AddableTo new)
    (h : accept old new collisions asked = .ok (result, found)) : old.AddableTo result := by
  induction asked generalizing new collisions with
  | nil =>
    obtain ⟨rfl, -⟩ := Prod.mk.inj (Except.ok.inj h)
    exact hnew
  | cons first rest ih =>
    obtain ⟨given, kind⟩ := first
    obtain ⟨word, hcheck, h⟩ := exists_of_bind_eq_ok h
    obtain ⟨-, hword⟩ := checkAlias_eq_ok_iff.1 hcheck
    split at h
    · next bound hbound =>
      split at h
      · next hkind =>
        refine ih (hnew.put hword fun other hother => ?_) h
        rw [← hkind]
        exact Option.some.inj (hother.symm.trans hbound)
      · exact ih hnew h
    · next hnone =>
      refine ih (hnew.put hword fun other hother => ?_) h
      rw [hnone] at hother
      cases hother

/-- A table that extends another one: the bindings of the old table are in front, and behind them are
the added ones, of other words that may be aliases and of canonical kinds. -/
structure ExtendedBy (table : AliasTable) (added : Bindings) (table' : AliasTable) : Prop where
  active_eq : table'.active = table.active ++ added
  reported_eq : table.reported = table.active → table'.reported = table'.active
  nodup : added.words.Nodup
  isAliasWord : ∀ word ∈ added.words, IsAliasWord word
  allCanonical : added.AllCanonical
  fresh : ∀ word ∈ added.words, word ∉ table.active.words

/-- A configuration that is accepted extends the table. -/
theorem exists_extendedBy_of_configure {table table' : AliasTable} {config : Config}
    (h : table.configure config = .ok table') : ∃ added, table.ExtendedBy added table' := by
  obtain ⟨asked, hasked, h⟩ := exists_of_bind_eq_ok h
  obtain ⟨⟨new, collisions⟩, haccept, h⟩ := exists_of_bind_eq_ok h
  have hnew := addableTo_of_accept Bindings.addableTo_nil haccept
  have hcanonical :=
    accept_allCanonical Bindings.allCanonical_nil (kind_mem_canonical_of_pairs hasked) haccept
  simp only at h
  split at h
  · obtain rfl := Except.ok.inj h
    obtain ⟨added, hadded, hsub, hfresh⟩ := hnew.exists_putAll_eq
    have hwords : added.words.Sublist new.words := hsub.map Prod.fst
    exact ⟨added, hadded, fun heq => by rw [heq], hnew.nodup.sublist hwords,
      fun word hword => hnew.isAliasWord word (hwords.subset hword),
      fun word kind hmem => hcanonical word kind (hsub.subset hmem), hfresh⟩
  · cases h

/-- So does an alias file that is accepted. -/
theorem exists_extendedBy_of_load {table table' : AliasTable} {file : Except Fault (List UInt8)}
    (h : table.load file = .ok table') : ∃ added, table.ExtendedBy added table' := by
  obtain ⟨config, -, hconfig⟩ := exists_of_bind_eq_ok h
  exact exists_extendedBy_of_configure hconfig

/-! ## Reachable tables -/

/-- What holds of a table at all times: reports show what words are resolved by, no word is bound
twice, and each of them may be an alias. -/
structure Consistent (table : AliasTable) : Prop where
  reported_eq : table.reported = table.active
  nodup : table.active.words.Nodup
  isAliasWord : ∀ word ∈ table.active.words, IsAliasWord word

theorem consistent_empty : Consistent .empty :=
  ⟨rfl, List.nodup_nil, by simp [empty, Bindings.words]⟩

/-- An extension of a consistent table is consistent. -/
theorem Consistent.extend {table table' : AliasTable} {added : Bindings} (h : table.Consistent)
    (hextended : table.ExtendedBy added table') : table'.Consistent := by
  have hwords : table'.active.words = table.active.words ++ added.words := by
    rw [hextended.active_eq, Bindings.words, List.map_append]
    rfl
  refine ⟨hextended.reported_eq h.reported_eq, ?_, ?_⟩
  · rw [hwords, List.nodup_append]
    refine ⟨h.nodup, hextended.nodup, ?_⟩
    rintro word hold other hadded rfl
    exact hextended.fresh word hadded hold
  · intro word hword
    rw [hwords, List.mem_append] at hword
    exact hword.elim (h.isAliasWord word) (hextended.isAliasWord word)

/-- The default words as a configuration. -/
def canonicalConfig : Config :=
  .dict (canonicalWords.map fun (word, kind) => (.text word, .text kind.name))

/-- The default table is what the configuration of the default words makes of the table without
aliases. -/
theorem configure_canonicalConfig : empty.configure canonicalConfig = .ok canonical := rfl

theorem consistent_canonical : Consistent .canonical := by
  obtain ⟨added, hadded⟩ := exists_extendedBy_of_configure configure_canonicalConfig
  exact consistent_empty.extend hadded

theorem Reachable.consistent {table : AliasTable} (h : table.Reachable) : table.Consistent := by
  induction h with
  | empty => exact consistent_empty
  | canonical => exact consistent_canonical
  | configure _ hstep ih =>
    obtain ⟨added, hadded⟩ := exists_extendedBy_of_configure hstep
    exact ih.extend hadded
  | load _ hstep ih =>
    obtain ⟨added, hadded⟩ := exists_extendedBy_of_load hstep
    exact ih.extend hadded

/-- A word that stands for a kind in a reachable table may be an alias. -/
theorem Reachable.isAliasWord {table : AliasTable} (h : table.Reachable) {word : String}
    {kind : TokenKind} (hkind : table.kind? word = some kind) : IsAliasWord word :=
  h.consistent.isAliasWord word (Bindings.mem_words_of_mem (Bindings.mem_of_lookup_eq_some hkind))

end AliasTable

end SetLang
