import SetLang.Proofs.Token.Taken

/-!
# Malformed lexemes

A text is refused exactly if its lexer comes to a lexeme that is malformed: a run of too many digits,
or a quote behind which no literal stands. The fault tells the place of that lexeme and the first
thing that is wrong with it, and the text before the lexeme has the tokens that were taken up to it.
-/

namespace SetLang

/-! ## What is wrong with a lexeme -/

/-- A text that begins as a lexeme does and has none in front: a run of more digits than an integer
may have, or a quote without the body of a literal and the same quote behind it. -/
def IsMalformed (text : List Char) : Prop :=
  decimalDigitLimit < (text.takeWhile isDigit).length ∨
    ∃ quote rest, (quote = '"' ∨ quote = '\'') ∧ text = quote :: rest ∧
      ∀ body value behind, IsLiteralBody quote body value → rest ≠ body ++ quote :: behind

/-- The first thing that is wrong with a literal, given what stands behind its opening quote. -/
inductive LiteralFlaw (quote : Char) : List Char → LexicalCause → Prop where
  | noBody : LiteralFlaw quote [] .unterminatedLiteral
  | empty {rest : List Char} : LiteralFlaw quote (quote :: rest) .emptyLiteral
  | noEscape : LiteralFlaw quote ['\\'] .unterminatedLiteral
  | unknownEscape {e : Char} {rest : List Char} : escaped? e = none →
      LiteralFlaw quote ('\\' :: e :: rest) (.unknownEscape e)
  | unclosed {body rest : List Char} {value : Char} : IsLiteralBody quote body value →
      (∀ c ∈ rest.head?, c ≠ quote) → LiteralFlaw quote (body ++ rest) .unterminatedLiteral

/-- The first thing that is wrong with a lexeme, given the text that begins with it. -/
inductive LexemeFlaw : List Char → LexicalCause → Prop where
  | tooLong {text : List Char} : decimalDigitLimit < (text.takeWhile isDigit).length →
      LexemeFlaw text .integerTooLong
  | literal {quote : Char} {rest : List Char} {cause : LexicalCause} :
      quote = '"' ∨ quote = '\'' → LiteralFlaw quote rest cause → LexemeFlaw (quote :: rest) cause

section

variable {quote : Char} {rest : List Char} {cause : LexicalCause}

/-- Where no literal stands there is something wrong. -/
theorem exists_literalFlaw
    (h : ∀ body value behind, IsLiteralBody quote body value → rest ≠ body ++ quote :: behind) :
    ∃ cause, LiteralFlaw quote rest cause := by
  -- a body is there, and then it is the closing quote that is not
  have hclose {body tail : List Char} {value : Char} (hbody : IsLiteralBody quote body value)
      (hrest : rest = body ++ tail) : LiteralFlaw quote rest .unterminatedLiteral := by
    rw [hrest]
    refine .unclosed hbody fun c hc => ?_
    rintro rfl
    obtain ⟨behind, rfl⟩ := List.head?_eq_some_iff.1 hc
    exact h body value behind hbody hrest
  cases rest with
  | nil => exact ⟨_, .noBody⟩
  | cons c more =>
    by_cases hquote : c = quote
    · subst hquote
      exact ⟨_, .empty⟩
    · by_cases hbackslash : c = '\\'
      · subst hbackslash
        cases more with
        | nil => exact ⟨_, .noEscape⟩
        | cons e more =>
          cases hescaped : escaped? e with
          | none => exact ⟨_, .unknownEscape hescaped⟩
          | some value => exact ⟨_, hclose (.escape hescaped) rfl⟩
      · exact ⟨_, hclose (.plain hquote hbackslash) rfl⟩

/-- A literal fails for the first thing that is wrong with it. -/
theorem LiteralFlaw.readLiteral_eq (hquote : quote ≠ '\\') (h : LiteralFlaw quote rest cause) :
    (readLiteral (String.ofList [quote]) (quote :: rest)).2 = .failed cause := by
  cases h with
  | noBody => rfl
  | empty => rw [readLiteral, literalBody_cons_cons, if_pos rfl]
  | noEscape => rw [readLiteral, literalBody_cons_cons, if_neg hquote.symm, if_pos rfl]
  | unknownEscape hescaped =>
    rw [readLiteral, literalBody_cons_cons, if_neg hquote.symm, if_pos rfl]
    simp only [hescaped]
  | @unclosed body rest value hbody hrest =>
    rw [readLiteral_body_append hquote hbody]
    cases rest with
    | nil => rw [closeLiteral_nil]
    | cons c rest => rw [closeLiteral_cons, if_neg (hrest c rfl)]

theorem IsMalformed.exists_lexemeFlaw {text : List Char} (h : IsMalformed text) :
    ∃ cause, LexemeFlaw text cause := by
  rcases h with hdigits | ⟨quote, rest, hquote, rfl, hnone⟩
  · exact ⟨_, .tooLong hdigits⟩
  · obtain ⟨cause, hcause⟩ := exists_literalFlaw hnone
    exact ⟨cause, .literal hquote hcause⟩

theorem IsMalformed.ne_nil {text : List Char} (h : IsMalformed text) : text ≠ [] := by
  rintro rfl
  rcases h with hdigits | ⟨quote, rest, -, hquote, -⟩
  · cases hdigits
  · cases hquote

end

namespace Cursor

variable {resolve : Resolver} {c : Cursor} {fault : Fault}

/-! ## Faults of a cursor -/

/-- The fault of a flawed lexeme tells the first thing that is wrong and the place. -/
theorem lexeme_of_flaw {first : Char} {text : List Char} {cause : LexicalCause}
    (h : LexemeFlaw (first :: text) cause) (hahead : c.ahead = first :: text) :
    (c.lexeme resolve first).1 = .error (.lexical cause c.place) := by
  have hliteral {kind : TokenKind} (hquote : first ≠ '\\') (hflaw : LiteralFlaw first text cause) :
      (c.charLiteral (String.ofList [first]) kind).1 = .error (.lexical cause c.place) := by
    have hread := hflaw.readLiteral_eq hquote
    rw [← hahead] at hread
    rw [charLiteral]
    simp only [hread]
    rfl
  cases h with
  | tooLong hdigits =>
    have hfirst : isDigit first = true := by
      by_contra hfirst
      rw [List.takeWhile_cons_of_neg hfirst] at hdigits
      cases hdigits
    rw [lexeme, if_neg (by simp [isWordStart_eq_false_of_isDigit hfirst]), if_pos hfirst, integer,
      hahead]
    simp only [hdigits, if_true]
  | literal hquote hflaw =>
    rcases hquote with rfl | rfl
    · exact hliteral (by decide) hflaw
    · exact hliteral (by decide) hflaw

/-- What is no lexeme is malformed. -/
theorem isMalformed_of_lexeme {first : Char} {text : List Char} (hahead : c.ahead = first :: text)
    (h : (c.lexeme resolve first).1 = .error fault) : IsMalformed (first :: text) := by
  -- a literal that stood there would have been taken
  have hliteral {kind : TokenKind} (hquote : first = '"' ∨ first = '\'')
      (h : (c.charLiteral (String.ofList [first]) kind).1 = .error fault) :
      IsMalformed (first :: text) := by
    refine .inr ⟨first, text, hquote, rfl, ?_⟩
    rintro body value behind hbody rfl
    have hsplit : c.ahead = first :: (body ++ [first]) ++ behind := by simp [hahead]
    have hne : first ≠ '\\' := by rcases hquote with rfl | rfl <;> decide
    rw [charLiteral_eq kind hne hsplit hbody] at h
    cases h
  unfold lexeme at h
  split at h
  · cases h
  · split at h
    · rw [integer, hahead] at h
      split at h
      · next hlong => exact .inl hlong
      · cases h
    · split at h
      · next hquote =>
        subst hquote
        exact hliteral (.inl rfl) h
      · split at h
        · next hquote =>
          subst hquote
          exact hliteral (.inr rfl) h
        · split at h
          · cases h
          · cases h

end Cursor

/-! ## Faults of texts -/

/-- A text has no more tokens than characters, apart from the end mark. -/
theorem Tokenized.length_le {resolve : Resolver} {p : Text.Place} {text : List Char}
    {ts : List Token} (h : Tokenized resolve p text ts) : ts.length ≤ text.length + 1 := by
  induction h with
  | done => simp
  | @lexeme p g x rest t ts _ _ hx _ _ ih =>
    have hpos : 0 < x.length := List.length_pos_iff.2 hx.ne_nil
    simp only [List.length_cons, List.length_append]
    omega

/-- The lexer of a text comes to the beginning of a lexeme, or to the end of the text, and has taken
some tokens before it. -/
def ComesTo (resolve : Resolver) (text : List Char) (read : List Token) (offset : Nat) : Prop :=
  ∃ after, (Cursor.start text).Takes resolve read after ∧ after.skipGap.position = offset

section

variable {resolve : Resolver} {text : List Char} {read : List Token} {offset : Nat}

/-- A flawed lexeme that the lexer comes to is its fault. -/
theorem ComesTo.tokenize_eq_error {cause : LexicalCause} (h : ComesTo resolve text read offset)
    (hflaw : LexemeFlaw (text.drop offset) cause) :
    tokenize resolve text = .error (.lexical cause (.behind (text.take offset))) := by
  obtain ⟨after, hread, rfl⟩ := h
  obtain ⟨hahead, hplace, -, -⟩ := hread.of_start
  rw [hahead] at hflaw
  cases hfirst : after.skipGap.ahead with
  | nil =>
    rw [hfirst] at hflaw
    cases hflaw with
    | tooLong hdigits => cases hdigits
  | cons first more =>
    rw [hfirst] at hflaw
    have hfault : (after.skipGap.lexeme resolve first).1 =
        .error (.lexical cause (.behind (text.take after.skipGap.position))) := by
      rw [Cursor.lexeme_of_flaw hflaw hfirst, hplace]
    refine Cursor.tokens_eq_error_iff.2 ⟨read, after, (after.skipGap.lexeme resolve first).2, hread, ?_⟩
    rw [Cursor.token?, hfirst, List.head?_cons, Option.map_some, ← hfault]

/-- A fault stands where the lexer comes to a malformed lexeme. -/
theorem exists_isMalformed_of_tokenize {fault : Fault} (h : tokenize resolve text = .error fault) :
    ∃ read offset, ComesTo resolve text read offset ∧ IsMalformed (text.drop offset) := by
  obtain ⟨read, after, next, hread, hfault⟩ := Cursor.tokens_eq_error_iff.1 h
  obtain ⟨first, more, hahead, hlexeme⟩ := Cursor.exists_of_token?_eq_some hfault
  refine ⟨read, _, ⟨after, hread, rfl⟩, ?_⟩
  rw [hread.of_start.1, hahead]
  exact Cursor.isMalformed_of_lexeme hahead (congrArg Prod.fst hlexeme)

end

/-- A text is refused exactly if its lexer comes to a malformed lexeme, and for no fault of another
class. The fault is the first thing that is wrong with that lexeme, at the place where it begins, and
the text before it has the tokens that were taken, with an end mark behind them. -/
theorem tokenize_refuses_malformed_lexeme (table : Option AliasTable) (text : List Char) :
    (∀ ts, tokenize (.ofTable? table) text = .ok ts → ts.length ≤ text.length + 1) ∧
    (∀ fault, tokenize (.ofTable? table) text = .error fault →
      fault.className = "SyntaxError" ∧
      ∃ read offset, ComesTo (.ofTable? table) text read offset ∧
        IsMalformed (text.drop offset)) ∧
    ∀ read offset, ComesTo (.ofTable? table) text read offset →
      IsMalformed (text.drop offset) →
      ∃ cause fault, (∀ found, LexemeFlaw (text.drop offset) found ↔ found = cause) ∧
        tokenize (.ofTable? table) text = .error fault ∧
        fault = .lexical cause (.behind (text.take offset)) ∧
        fault.message = cause.message ++
          " at line " ++ Integer.decimal (Text.Place.behind (text.take offset)).line ++
          ", col " ++ Integer.decimal (Text.Place.behind (text.take offset)).column ∧
        tokenize (.ofTable? table) (text.take offset) =
          .ok (read ++ [.endAt (.behind (text.take offset))]) ∧
        read.length ≤ offset := by
  refine ⟨fun ts h => (tokenize_eq_ok_iff.1 h).length_le, fun fault h => ?_,
    fun read offset hcomes hmalformed => ?_⟩
  · obtain ⟨read, offset, hcomes, hmalformed⟩ := exists_isMalformed_of_tokenize h
    obtain ⟨cause, hflaw⟩ := hmalformed.exists_lexemeFlaw
    rw [hcomes.tokenize_eq_error hflaw] at h
    obtain rfl := Except.error.inj h
    exact ⟨rfl, read, offset, hcomes, hmalformed⟩
  · obtain ⟨cause, hflaw⟩ := hmalformed.exists_lexemeFlaw
    have herror {found : LexicalCause} (hfound : LexemeFlaw (text.drop offset) found) :=
      hcomes.tokenize_eq_error hfound
    obtain ⟨after, hread, rfl⟩ := hcomes
    obtain ⟨hahead, -, hlength, hbefore⟩ := hread.of_start
    refine ⟨cause, _, fun found => ⟨fun hfound => ?_, fun hfound => hfound ▸ hflaw⟩,
      herror hflaw, rfl, rfl, hbefore (hahead ▸ hmalformed.ne_nil), hlength⟩
    -- a text is refused for one fault only
    have hboth := (herror hfound).symm.trans (herror hflaw)
    exact (Fault.lexical.inj (Except.error.inj hboth)).1

/-- A literal that is cut off behind its backslash, after an alias and a comment. -/
theorem tokenize_refuses_malformed_lexeme_cut_off :
    tokenize (.ofTable? (some .canonical)) "var # x\n'\\".toList =
      .error (.lexical .unterminatedLiteral ⟨2, 1⟩) ∧
    tokenize (.ofTable? (some .canonical)) "var # x\n".toList =
      .ok [⟨.percent, .text "var", ⟨1, 1⟩⟩, .endAt ⟨2, 1⟩] := by
  have hcomes : ComesTo (.ofTable? (some .canonical)) "var # x\n'\\".toList
      [⟨.percent, .text "var", ⟨1, 1⟩⟩] 8 := ⟨_, .cons rfl (.nil _), rfl⟩
  have hmalformed : IsMalformed ("var # x\n'\\".toList.drop 8) := by
    refine .inr ⟨'\'', ['\\'], .inr rfl, rfl, ?_⟩
    rintro body value behind (⟨-, hbackslash⟩ | hescaped) hrest
    · exact hbackslash (List.cons.inj hrest).1.symm
    · cases hrest
  obtain ⟨cause, fault, hcause, herror, rfl, -, hbefore, -⟩ :=
    (tokenize_refuses_malformed_lexeme _ _).2.2 _ _ hcomes hmalformed
  obtain rfl : LexicalCause.unterminatedLiteral = cause :=
    (hcause _).1 (.literal (.inr rfl) .noEscape)
  exact ⟨herror, hbefore⟩

end SetLang
