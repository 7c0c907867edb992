import SetLang.Proofs.Grammar.Completion

/-!
# Viable prefixes

A sentence of the grammar is a list of statements and the end mark. A word is viable if some
sentence begins with it. The parser reads viable prefixes only, and it rejects a token exactly when
no sentence goes on with it: the tokens it has read can be completed, and with the rejected token
they cannot.
-/

namespace SetLang

open Phrase (words)

/-! ## Sentences -/

/-- A sentence is a list of statements and the end mark. -/
def IsSentence (w : List TokenKind) : Prop :=
  ∃ ds, w = words ds ++ [.endOfText]

/-- A viable word is one that some sentence begins with. -/
def IsViable (w : List TokenKind) : Prop :=
  ∃ v, IsSentence (w ++ v)

theorem IsViable.of_append {u v : List TokenKind} (h : IsViable (u ++ v)) : IsViable u := by
  obtain ⟨w, hw⟩ := h
  exact ⟨v ++ w, by rwa [← List.append_assoc]⟩

theorem IsViable.take {w : List TokenKind} (h : IsViable w) (n : Nat) : IsViable (w.take n) := by
  rw [← List.take_append_drop n w] at h
  exact h.of_append

theorem ExprPhrase.endOfText_notMem_commaWord (es : List ExprPhrase) :
    .endOfText ∉ commaWord es := by
  induction es with
  | nil => simp [commaWord]
  | cons e es ih => simpa [commaWord, ih] using e.kind_ne_endOfText.symm

theorem SetPhrase.endOfText_notMem_word (s : SetPhrase) : .endOfText ∉ s.word := by
  cases s with
  | mark => simp [word]
  | emptyBraces => simp [word]
  | braces first more =>
    have hmore := ExprPhrase.endOfText_notMem_commaWord more
    simpa [word, hmore] using first.kind_ne_endOfText.symm

namespace Phrase

mutual

theorem endOfText_notMem_word : ∀ d : Phrase, .endOfText ∉ d.word
  | flip e => by simpa [word] using e.kind_ne_endOfText.symm
  | loop p s body => by
    simp [word, s.endOfText_notMem_word, endOfText_notMem_words body]
  | apply o s => by simp [word, s.endOfText_notMem_word]
  | test body => by simp [word, endOfText_notMem_words body]
  | put | complement | colon | semicolon | tilde => by simp [word]

/-- No statement has an end mark in it. -/
theorem endOfText_notMem_words : ∀ ds : List Phrase, .endOfText ∉ words ds
  | [] => by simp
  | d :: ds => by simp [endOfText_notMem_word d, endOfText_notMem_words ds]

end

end Phrase

/-- A sentence ends where its end mark is. -/
theorem eq_of_isSentence_append_endOfText {w v : List TokenKind}
    (h : IsSentence (w ++ .endOfText :: v)) : ∃ ds, w = words ds := by
  obtain ⟨ds, hds⟩ := h
  have hmem := Phrase.endOfText_notMem_words ds
  refine ⟨ds, ?_⟩
  -- an end mark before the last place would be one of a statement
  rcases List.eq_nil_or_concat v with rfl | ⟨v, k, rfl⟩
  · exact List.append_inj_left' hds rfl
  · have hwords : w ++ .endOfText :: v = words ds := by
      rw [List.concat_eq_append, ← List.cons_append, ← List.append_assoc] at hds
      exact List.append_inj_left' hds rfl
    rw [← hwords] at hmem
    exact absurd (by simp) hmem

/-- Before its end mark a sentence goes on with the kinds of statements. -/
theorem exists_words_of_isSentence_append {w v : List TokenKind} {k : TokenKind}
    (hk : k ≠ .endOfText) (h : IsSentence (w ++ k :: v)) : ∃ ds u, words ds = w ++ k :: u := by
  obtain ⟨ds, hds⟩ := h
  rcases List.eq_nil_or_concat v with rfl | ⟨u, last, rfl⟩
  · exact absurd (List.singleton_inj.1 (List.append_inj_right' hds rfl)) hk
  · rw [List.concat_eq_append, ← List.cons_append, ← List.append_assoc] at hds
    exact ⟨ds, u, (List.append_inj_left' hds rfl).symm⟩

/-! ## What the parser reads and rejects -/

namespace ParseState

variable {read : List Token} {t : Token} {s : ParseState}

/-- The parser reads viable words only. -/
theorem isViable_of_after? (h : initial.after? read = some s) :
    IsViable (read.map Token.kind) := by
  obtain ⟨w, hw⟩ := s.exists_completedBy
  obtain ⟨ds, hds⟩ := initial_completedBy_iff.1 (completedBy_of_after? h hw)
  exact ⟨w ++ [.endOfText], ds, by rw [← List.append_assoc, hds]⟩

/-- Where the parser stands between two statements of the program, it has read statements, and the
finished nodes are their trees. -/
theorem exists_words_of_after? {done : List Node}
    (h : initial.after? read = some ⟨.statements .program done, []⟩) :
    ∃ ds, words ds = read.map Token.kind ∧ Node.programOf done = Phrase.programTree ds read := by
  have hcompleted : CompletedBy ⟨.statements .program done, []⟩ [] :=
    ⟨[], [], rfl, ⟨[], rfl⟩, rfl⟩
  obtain ⟨ds, hds⟩ := initial_completedBy_iff.1 (completedBy_of_after? h hcompleted)
  rw [List.append_nil] at hds
  have hafter := Phrase.after?_words ds .program [] [] [] trivial hds
  rw [List.append_nil, List.append_nil] at hafter
  obtain rfl : (Phrase.trees ds read).reverse = done := by
    simpa using Option.some.inj (hafter.symm.trans h)
  exact ⟨ds, hds.symm, by rw [Node.programOf, List.reverse_reverse, Phrase.programTree]⟩

/-- After the statements of a program the parser stands at the end of the program. -/
theorem after?_of_words {ds : List Phrase} (h : words ds = read.map Token.kind) :
    initial.after? read = some ⟨.statements .program (Phrase.trees ds read).reverse, []⟩ := by
  have hafter := Phrase.after?_words ds .program [] [] [] trivial h.symm
  rwa [List.append_nil, List.append_nil] at hafter

/-- No sentence goes on with a rejected token. -/
theorem not_isViable_of_reject {demand : Demand} (h : initial.after? read = some s)
    (hmove : s.move t = .verdict (.reject demand)) :
    ¬ IsViable ((read ++ [t]).map Token.kind) := by
  rintro ⟨v, hv⟩
  rw [List.map_append, List.map_singleton, List.append_assoc, List.singleton_append] at hv
  by_cases ht : t.kind = .endOfText
  · -- the parser would have read a whole program, and the end mark would finish it
    rw [ht] at hv
    obtain ⟨ds, hds⟩ := eq_of_isSentence_append_endOfText hv
    rw [after?_of_words hds.symm] at h
    obtain rfl := Option.some.inj h
    rw [move, if_pos ht] at hmove
    cases hmove
  · -- tokens of the missing kinds would lead the parser on past the rejected token
    obtain ⟨ds, u, hwords⟩ := exists_words_of_isSentence_append ht hv
    let filler : List Token := u.map fun k => ⟨k, .absent, ⟨0, 0⟩⟩
    have hkinds : words ds = (read ++ t :: filler).map Token.kind := by
      simp [hwords, filler, Function.comp_def]
    have hafter := after?_of_words hkinds
    rw [after?_append h, after?, hmove] at hafter
    cases hafter

end ParseState

end SetLang
