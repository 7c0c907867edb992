import SetLang.Proofs.Token.Lexeme

/-!
# Reading tokens

A cursor takes a token exactly where a lexeme of its kind and value stands, and moves over that
lexeme. Whatever stands at the front, the cursor moves on, and what is no lexeme is a lexical fault
at the place where it begins.
-/

namespace SetLang

namespace Cursor

variable {resolve : Resolver} {c after : Cursor} {t : Token}

/-- A token is read if a lexeme of its kind and value stands at the front, where the token is placed,
and the cursor is moved over it. -/
def Reads (resolve : Resolver) (c : Cursor) (t : Token) (after : Cursor) : Prop :=
  ∃ x rest, c.ahead = x ++ rest ∧ IsLexeme resolve x rest t.kind t.value ∧ t.place = c.place ∧
    after = c.pass x.length

/-- A word that begins at the cursor is read. -/
theorem reads_word {first : Char} {text : List Char} (hahead : c.ahead = first :: text)
    (hfirst : isWordStart first = true) :
    c.Reads resolve (c.word resolve).1 (c.word resolve).2 := by
  have hletters : c.ahead.takeWhile isWordChar = first :: text.takeWhile isWordChar := by
    rw [hahead, List.takeWhile_cons_of_pos (isWordChar_of_isWordStart hfirst)]
  rw [word, hletters]
  refine ⟨first :: text.takeWhile isWordChar, text.dropWhile isWordChar, ?_,
    .word hfirst (fun d hd => List.mem_takeWhile_imp hd) head?_dropWhile_eq_false
      (isWordKind_iff.2 rfl), rfl, rfl⟩
  rw [hahead, List.cons_append, List.takeWhile_append_dropWhile]

theorem reads_of_integer {first : Char} {text : List Char} (hahead : c.ahead = first :: text)
    (hfirst : isDigit first = true) (h : c.integer = (.ok t, after)) : c.Reads resolve t after := by
  have hdigits : c.ahead.takeWhile isDigit = first :: text.takeWhile isDigit := by
    rw [hahead, List.takeWhile_cons_of_pos hfirst]
  rw [integer, hdigits] at h
  split at h
  · cases h
  · next hlength =>
    cases h
    refine ⟨first :: text.takeWhile isDigit, text.dropWhile isDigit, ?_, .integer ?_
      head?_dropWhile_eq_false (Nat.not_lt.1 hlength), rfl, rfl⟩
    · rw [hahead, List.cons_append, List.takeWhile_append_dropWhile]
    · intro d hd
      rcases List.mem_cons.1 hd with rfl | hd
      · exact hfirst
      · exact List.mem_takeWhile_imp hd

/-- A literal that is read as one begins and ends with its quote. -/
theorem exists_of_charLiteral {quote : Char} {kind : TokenKind} {text : List Char}
    (hahead : c.ahead = quote :: text)
    (h : c.charLiteral (String.ofList [quote]) kind = (.ok t, after)) :
    ∃ body rest value, c.ahead = quote :: (body ++ [quote]) ++ rest ∧
      IsLiteralBody quote body value ∧ t = ⟨kind, .text (String.ofList [value]), c.place⟩ ∧
      after = c.pass (quote :: (body ++ [quote])).length := by
  unfold charLiteral at h
  cases hread : readLiteral (String.ofList [quote]) c.ahead with
  | mk taken ending =>
    simp only [hread] at h
    obtain ⟨htoken, rfl⟩ := Prod.mk.inj h
    cases ending with
    | closed value =>
      obtain rfl := Except.ok.inj htoken
      rw [hahead] at hread
      obtain ⟨body, rest, rfl, rfl, hbody⟩ := exists_isLiteralBody_of_readLiteral hread
      exact ⟨body, rest, value, by rw [hahead]; simp, hbody, rfl, by simp⟩
    | failed cause => cases htoken
    | pastEnd => cases htoken

theorem reads_of_spelling? {first : Char} {text : List Char} (hahead : c.ahead = first :: text)
    (hfirst : IsSymbol first) (h : c.spelling? = some (t, after)) : c.Reads resolve t after := by
  obtain ⟨⟨x, kind⟩, hspelling, hpair⟩ := Option.map_eq_some_iff.1 h
  obtain ⟨rfl, rfl⟩ := Prod.mk.inj hpair
  obtain ⟨rest, hsplit, hlongest⟩ := exists_isLongestSpelling_of_spellingAt? hspelling
  have hlength := length_mem_of_isSome_spelled? (x := x) (by rw [hlongest.1]; rfl)
  cases x with
  | nil => simp at hlength
  | cons d more =>
    obtain rfl : first = d := by
      rw [hahead, List.cons_append] at hsplit
      exact (List.cons.inj hsplit).1
    exact ⟨first :: more, rest, hsplit, .mark hfirst hlongest, rfl, rfl⟩

/-- A token that is taken is read. -/
theorem reads_of_lexeme {first : Char} {text : List Char} (hahead : c.ahead = first :: text)
    (h : c.lexeme resolve first = (.ok t, after)) : c.Reads resolve t after := by
  unfold lexeme at h
  split at h
  · next hfirst =>
    obtain ⟨htoken, rfl⟩ := Prod.mk.inj h
    obtain rfl := Except.ok.inj htoken
    exact reads_word hahead hfirst
  · next hword =>
    split at h
    · next hfirst => exact reads_of_integer hahead hfirst h
    · next hdigit =>
      split at h
      · next hquote =>
        subst hquote
        obtain ⟨body, rest, value, hsplit, hbody, rfl, rfl⟩ := exists_of_charLiteral hahead h
        exact ⟨_, rest, hsplit, .quoted hbody, rfl, rfl⟩
      · next hquote =>
        split at h
        · next hapostrophe =>
          subst hapostrophe
          obtain ⟨body, rest, value, hsplit, hbody, rfl, rfl⟩ := exists_of_charLiteral hahead h
          exact ⟨_, rest, hsplit, .tested hbody, rfl, rfl⟩
        · next hapostrophe =>
          have hsymbol : IsSymbol first :=
            ⟨eq_false_of_ne_true hword, eq_false_of_ne_true hdigit, hquote, hapostrophe⟩
          split at h
          · next hspelling =>
            obtain ⟨htoken, rfl⟩ := Prod.mk.inj h
            obtain rfl := Except.ok.inj htoken
            exact reads_of_spelling? hahead hsymbol hspelling
          · next hspelling =>
            obtain ⟨htoken, rfl⟩ := Prod.mk.inj h
            obtain rfl := Except.ok.inj htoken
            have hnone := spellingAt?_eq_none_iff.1 (Option.map_eq_none_iff.1 hspelling)
            rw [hahead] at hnone
            exact ⟨[first], text, hahead, .unknown hsymbol hnone, rfl, rfl⟩

/-- Where a literal stands it is taken, whatever follows. -/
theorem charLiteral_eq {quote value : Char} {body rest : List Char} (kind : TokenKind)
    (hquote : quote ≠ '\\') (hahead : c.ahead = quote :: (body ++ [quote]) ++ rest)
    (hbody : IsLiteralBody quote body value) :
    c.charLiteral (String.ofList [quote]) kind =
      (.ok ⟨kind, .text (String.ofList [value]), c.place⟩,
        c.pass (quote :: (body ++ [quote])).length) := by
  have hread : readLiteral (String.ofList [quote]) c.ahead = (body.length + 2, .closed value) := by
    rw [hahead, List.cons_append, List.append_assoc, List.singleton_append]
    exact readLiteral_append hquote hbody rest
  have hlength : (quote :: (body ++ [quote])).length = body.length + 2 := by simp
  rw [charLiteral, hread, hlength]
  rfl

/-- The lexeme at the front of what is ahead is taken. -/
theorem lexeme_eq_of_isLexeme {first : Char} {more rest : List Char} {kind : TokenKind}
    {value : Value} (hahead : c.ahead = first :: more ++ rest)
    (h : IsLexeme resolve (first :: more) rest kind value) :
    c.lexeme resolve first = (.ok ⟨kind, value, c.place⟩, c.pass (first :: more).length) := by
  generalize hx : first :: more = x at h
  cases h with
  | word hfirst hmore hrest hkind =>
    obtain ⟨rfl, rfl⟩ := List.cons.inj hx
    have hinside : ∀ d ∈ first :: more, isWordChar d = true :=
      List.forall_mem_cons.2 ⟨isWordChar_of_isWordStart hfirst, hmore⟩
    have hletters : c.ahead.takeWhile isWordChar = first :: more := by
      rw [hahead, takeWhile_append_of_head? hinside hrest]
    rw [lexeme, if_pos hfirst, word, hletters, isWordKind_iff.1 hkind]
  | integer hdigits hrest hlength =>
    obtain ⟨rfl, rfl⟩ := List.cons.inj hx
    have hfirst := hdigits first List.mem_cons_self
    have hall : c.ahead.takeWhile isDigit = first :: more := by
      rw [hahead, takeWhile_append_of_head? hdigits hrest]
    rw [lexeme, if_neg (by simp [isWordStart_eq_false_of_isDigit hfirst]), if_pos hfirst, integer,
      hall]
    exact if_neg (Nat.not_lt.2 hlength)
  | quoted hbody =>
    obtain ⟨rfl, rfl⟩ := List.cons.inj hx
    exact charLiteral_eq .quotedChar (by decide) hahead hbody
  | tested hbody =>
    obtain ⟨rfl, rfl⟩ := List.cons.inj hx
    exact charLiteral_eq .testedChar (by decide) hahead hbody
  | mark hsymbol hlongest =>
    obtain ⟨rfl, rfl⟩ := List.cons.inj hx
    obtain ⟨hword, hdigit, hquote, hapostrophe⟩ := hsymbol
    rw [lexeme, if_neg (by simp [hword]), if_neg (by simp [hdigit]), if_neg hquote,
      if_neg hapostrophe, spelling?, hahead, hlongest.spellingAt?_append]
    rfl
  | unknown hsymbol hnone =>
    obtain ⟨rfl, rfl⟩ := List.cons.inj hx
    obtain ⟨hword, hdigit, hquote, hapostrophe⟩ := hsymbol
    rw [lexeme, if_neg (by simp [hword]), if_neg (by simp [hdigit]), if_neg hquote,
      if_neg hapostrophe, spelling?, hahead, List.singleton_append,
      spellingAt?_eq_none_iff.2 hnone]
    rfl

/-! ## Moving on -/

/-- Whatever stands at the front, the cursor moves on. -/
theorem exists_pass_of_lexeme (resolve : Resolver) {first : Char} {text : List Char}
    (hahead : c.ahead = first :: text) : ∃ n, (c.lexeme resolve first).2 = c.pass (n + 1) := by
  have hliteral (quote : String) (kind : TokenKind) :
      ∃ n, (c.charLiteral quote kind).2 = c.pass (n + 1) := by
    have hpos := readLiteral_pos quote first text
    rw [charLiteral, hahead]
    exact ⟨(readLiteral quote (first :: text)).1 - 1, by rw [Nat.sub_add_cancel hpos]⟩
  unfold lexeme
  split
  · next hfirst =>
    rw [word, hahead, List.takeWhile_cons_of_pos (isWordChar_of_isWordStart hfirst)]
    exact ⟨_, rfl⟩
  · split
    · next hfirst =>
      rw [integer, hahead, List.takeWhile_cons_of_pos hfirst]
      split
      · exact ⟨_, rfl⟩
      · exact ⟨_, rfl⟩
    · split
      · exact hliteral _ _
      · split
        · exact hliteral _ _
        · split
          · next hspelling =>
            obtain ⟨⟨x, kind⟩, hat, hpair⟩ := Option.map_eq_some_iff.1 hspelling
            obtain ⟨-, rfl⟩ := Prod.mk.inj hpair
            obtain ⟨rest, -, hlongest⟩ := exists_isLongestSpelling_of_spellingAt? hat
            have hlength := length_mem_of_isSome_spelled? (x := x) (by rw [hlongest.1]; rfl)
            cases x with
            | nil => simp at hlength
            | cons d more => exact ⟨more.length, rfl⟩
          · exact ⟨0, rfl⟩

/-- What is no lexeme is a lexical fault at the place where it begins. -/
theorem exists_lexical_of_lexeme {first : Char} {text : List Char} {fault : Fault}
    (hahead : c.ahead = first :: text) (h : c.lexeme resolve first = (.error fault, after)) :
    ∃ cause, fault = .lexical cause c.place := by
  have hliteral {quote : Char} {kind : TokenKind}
      (h : c.charLiteral (String.ofList [quote]) kind = (.error fault, after)) :
      ∃ cause, fault = .lexical cause c.place := by
    have hpast := readLiteral_ne_pastEnd quote first text
    rw [← hahead] at hpast
    unfold charLiteral at h
    cases hread : readLiteral (String.ofList [quote]) c.ahead with
    | mk taken ending =>
      simp only [hread] at h hpast
      obtain ⟨hresult, -⟩ := Prod.mk.inj h
      cases ending with
      | closed value => cases hresult
      | failed cause => exact ⟨cause, (Except.error.inj hresult).symm⟩
      | pastEnd => exact absurd rfl hpast
  unfold lexeme at h
  split at h
  · cases h
  · split at h
    · rw [integer] at h
      split at h
      · obtain ⟨hresult, -⟩ := Prod.mk.inj h
        exact ⟨_, (Except.error.inj hresult).symm⟩
      · cases h
    · split at h
      · exact hliteral h
      · split at h
        · exact hliteral h
        · split at h
          · cases h
          · cases h

/-! ## Gaps and tokens -/

theorem place_pass_of_ahead {x rest : List Char} (h : c.ahead = x ++ rest) :
    (c.pass x.length).place = c.place.afterAll x := by
  show c.place.afterAll (c.ahead.take x.length) = c.place.afterAll x
  rw [h, List.take_left]

theorem ahead_pass_of_ahead {x rest : List Char} (h : c.ahead = x ++ rest) :
    (c.pass x.length).ahead = rest := by
  rw [ahead_pass, h, List.drop_left]

/-- The gap that is skipped, and that no other follows it. -/
theorem exists_skipGap_eq (c : Cursor) :
    ∃ g, c.ahead = g ++ c.skipGap.ahead ∧ IsGap g c.skipGap.ahead ∧
      BeginsNoGap c.skipGap.ahead ∧ c.skipGap = c.pass g.length := by
  obtain ⟨rest, hahead, hgap, hrest⟩ := exists_isGap_gap c.ahead
  have hskip : c.skipGap.ahead = rest := ahead_pass_of_ahead hahead
  rw [hskip]
  exact ⟨gap c.ahead, hahead, hgap, hrest, rfl⟩

theorem skipGap_eq_pass {g rest : List Char} (hahead : c.ahead = g ++ rest)
    (hgap : IsGap g rest) (hrest : BeginsNoGap rest) : c.skipGap = c.pass g.length := by
  rw [skipGap, hahead, hgap.gap_append hrest]

/-- A cursor that no gap begins at stays where it is. -/
theorem skipGap_eq_self (h : BeginsNoGap c.ahead) : c.skipGap = c := by
  rw [skipGap, gap_eq_nil h]
  exact pass_zero c

/-- There is no token where nothing follows the gap. -/
theorem token?_eq_none_iff : c.token? resolve = none ↔ c.skipGap.ahead = [] := by
  rw [token?, Option.map_eq_none_iff, List.head?_eq_none_iff]

theorem exists_of_token?_eq_some {result : Except Fault Token × Cursor}
    (h : c.token? resolve = some result) :
    ∃ first text, c.skipGap.ahead = first :: text ∧ c.skipGap.lexeme resolve first = result := by
  obtain ⟨first, hfirst, hlexeme⟩ := Option.map_eq_some_iff.1 h
  obtain ⟨text, hahead⟩ := List.head?_eq_some_iff.1 hfirst
  exact ⟨first, text, hahead, hlexeme⟩

/-- The lexeme behind the gap is the next token. -/
theorem token?_of_isLexeme {x rest : List Char} {kind : TokenKind} {value : Value}
    (hahead : c.skipGap.ahead = x ++ rest) (h : IsLexeme resolve x rest kind value) :
    c.token? resolve = some (.ok ⟨kind, value, c.skipGap.place⟩, c.skipGap.pass x.length) := by
  obtain ⟨first, more, rfl⟩ := List.exists_cons_of_ne_nil h.ne_nil
  rw [token?, hahead]
  exact congrArg some (lexeme_eq_of_isLexeme hahead h)

/-- With every token, or fault in its place, fewer characters are ahead. -/
theorem length_ahead_lt_of_token? {result : Except Fault Token × Cursor}
    (h : c.token? resolve = some result) : result.2.ahead.length < c.ahead.length := by
  obtain ⟨first, text, hahead, rfl⟩ := exists_of_token?_eq_some h
  obtain ⟨n, hpass⟩ := exists_pass_of_lexeme resolve hahead
  obtain ⟨g, hgap, -, -, -⟩ := c.exists_skipGap_eq
  rw [hpass, ahead_pass, hgap, hahead]
  simp
  omega

/-- What holds of a cursor if it holds of the cursor behind its next token holds of every cursor. -/
theorem induction_on_tokens (resolve : Resolver) {motive : Cursor → Prop}
    (step : ∀ c, (∀ result, c.token? resolve = some result → motive result.2) → motive c)
    (c : Cursor) : motive c := by
  induction hlength : c.ahead.length using Nat.strongRecOn generalizing c with
  | ind n ih =>
    subst hlength
    exact step c fun result h => ih _ (length_ahead_lt_of_token? h) result.2 rfl

end Cursor

end SetLang
