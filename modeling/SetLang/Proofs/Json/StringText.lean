import SetLang.Proofs.Json.Scalar

/-!
# Texts of strings

What the reader of JSON takes for a string ends with the first quote that is not escaped, and it is
read again wherever it stands. An escape of the first half of a pair is read with the escape of the
second half behind it, but never with what follows the string.
-/

namespace SetLang.Json

variable {body rest text digits : List Char} {s : WideText} {unit : Nat}

/-- What stands in a string behind its opening quote, up to the closing one. -/
inductive IsStringBody : List Char → Prop where
  | close : IsStringBody ['"']
  | plain {c : Char} {body : List Char} : c ≠ '"' → c ≠ '\\' → 0x20 ≤ c.toNat →
      IsStringBody body → IsStringBody (c :: body)
  | escape {k c : Char} {body : List Char} : escape? k = some c → IsStringBody body →
      IsStringBody ('\\' :: k :: body)
  | unicode {digits body : List Char} {unit : Nat} : digits.length = 4 →
      natOfHexDigits? digits = some unit → IsStringBody body →
      IsStringBody ('\\' :: 'u' :: (digits ++ body))

theorem IsStringBody.exists_cons (h : IsStringBody body) : ∃ c more, body = c :: more := by
  cases h with
  | close | plain | escape | unicode => exact ⟨_, _, rfl⟩

theorem IsStringBody.length_pos (h : IsStringBody body) : 0 < body.length := by
  obtain ⟨c, more, rfl⟩ := h.exists_cons
  exact Nat.zero_lt_succ _

/-- Four digits are read as a code unit, with the body of a string behind them. -/
theorem IsStringBody.codeUnit?_append (h : IsStringBody body) (hlength : digits.length = 4)
    (rest : List Char) : codeUnit? (digits ++ (body ++ rest)) = natOfHexDigits? digits := by
  obtain ⟨c, more, rfl⟩ := h.exists_cons
  exact Json.codeUnit?_append hlength c (more ++ rest)

/-- The body of a string ends with the quotation mark. -/
theorem IsStringBody.getLast?_eq (h : IsStringBody body) : body.getLast? = some '"' := by
  induction h with
  | close => rfl
  | plain _ _ _ hbody ih => rw [List.getLast?_cons, ih, Option.getD_some]
  | escape _ _ ih => rw [List.getLast?_cons, List.getLast?_cons, ih]; rfl
  | unicode _ _ _ ih =>
    rw [List.getLast?_cons, List.getLast?_cons, List.getLast?_append, ih]
    rfl

/-- A code unit is read from four digits. -/
theorem exists_of_codeUnit? (h : codeUnit? text = some unit) :
    ∃ digits more, text = digits ++ more ∧ digits.length = 4 ∧
      natOfHexDigits? digits = some unit := by
  unfold codeUnit? at h
  split at h
  · next a b c d e more => exact ⟨[a, b, c, d], e :: more, rfl, rfl, h⟩
  · cases h

/-- An escape takes four digits, or four digits and a second escape of four digits. -/
theorem exists_of_unicodeEscape {point : CodePoint} {used : Nat}
    (h : unicodeEscape text = .ok (point, used)) :
    ∃ digits unit, digits.length = 4 ∧ natOfHexDigits? digits = some unit ∧
      (text = digits ++ text.drop used ∨ ∃ digits' unit', digits'.length = 4 ∧
        natOfHexDigits? digits' = some unit' ∧
        text = digits ++ '\\' :: 'u' :: (digits' ++ text.drop used)) := by
  unfold unicodeEscape at h
  split at h
  · cases h
  · next unit hunit =>
    obtain ⟨digits, more, rfl, hlength, hdigits⟩ := exists_of_codeUnit? hunit
    have hdrop : (digits ++ more).drop 4 = more := List.drop_left' hlength
    refine ⟨digits, unit, hlength, hdigits, ?_⟩
    rw [hdrop] at h
    split at h
    · next more _ =>
      split at h
      · obtain ⟨-, rfl⟩ := Prod.mk.inj (Except.ok.inj h)
        exact .inl (by rw [hdrop])
      · split at h
        · cases h
        · next low hlow =>
          obtain ⟨digits', more', rfl, hlength', hdigits'⟩ := exists_of_codeUnit? hlow
          obtain hpair := Except.ok.inj h
          split at hpair
          · obtain ⟨-, rfl⟩ := Prod.mk.inj hpair
            have happend : digits ++ '\\' :: 'u' :: (digits' ++ more') =
                (digits ++ '\\' :: 'u' :: digits') ++ more' := by simp
            have hdrop' : ((digits ++ '\\' :: 'u' :: digits') ++ more').drop 10 = more' :=
              List.drop_left' (by simp [hlength, hlength'])
            exact .inr ⟨digits', low, hlength', hdigits', by rw [happend, hdrop', happend]⟩
          · obtain ⟨-, rfl⟩ := Prod.mk.inj hpair
            exact .inl (by rw [hdrop])
    · obtain ⟨-, rfl⟩ := Prod.mk.inj (Except.ok.inj h)
      exact .inl (by rw [hdrop])

/-- What is read of a string ends with the closing quote. -/
theorem exists_isStringBody_of_readString {opening : List Char} {done : List CodePoint}
    (h : readString opening done text = .ok (s, rest)) :
    ∃ body, text = body ++ rest ∧ IsStringBody body := by
  fun_induction readString opening done text with
  | case1 | case3 | case4 | case7 | case8 => cases h
  | case2 done more =>
    obtain ⟨-, rfl⟩ := Prod.mk.inj (Except.ok.inj h)
    exact ⟨['"'], rfl, .close⟩
  | case5 done more point used hescape ih =>
    obtain ⟨body, hbody, hend⟩ := ih h
    obtain ⟨digits, unit, hlength, hdigits, hmore | ⟨digits', unit', hlength', hdigits', hmore⟩⟩ :=
      exists_of_unicodeEscape hescape
    · refine ⟨'\\' :: 'u' :: (digits ++ body), ?_, .unicode hlength hdigits hend⟩
      rw [hmore, hbody]
      simp
    · refine ⟨'\\' :: 'u' :: (digits ++ '\\' :: 'u' :: (digits' ++ body)), ?_,
        .unicode hlength hdigits (.unicode hlength' hdigits' hend)⟩
      rw [hmore, hbody]
      simp
  | case6 done k more _ c hescape ih =>
    obtain ⟨body, rfl, hend⟩ := ih h
    exact ⟨'\\' :: k :: body, rfl, .escape hescape hend⟩
  | case9 done c more hquote hlast _ hnext hcontrol ih =>
    obtain ⟨body, rfl, hend⟩ := ih h
    have hbackslash : c ≠ '\\' := by
      intro hc
      cases hmore : body ++ rest with
      | nil => exact hlast hc hmore
      | cons d more => exact hnext d more hc hmore
    exact ⟨c :: body, rfl, .plain hquote hbackslash (Nat.le_of_not_lt hcontrol) hend⟩

/-- An escape that no second one follows is one character. -/
theorem unicodeEscape_alone {d : Char} {more : List Char} (hlength : digits.length = 4)
    (hdigits : natOfHexDigits? digits = some unit)
    (hnext : ∀ later, d :: more ≠ '\\' :: 'u' :: later) :
    unicodeEscape (digits ++ d :: more) = .ok (pointOfUnit unit, 4) := by
  have hdrop : (digits ++ d :: more).drop 4 = d :: more := List.drop_left' hlength
  rw [unicodeEscape, codeUnit?_append hlength, hdigits]
  dsimp only
  rw [hdrop]
  split
  · next heq => exact absurd heq (hnext _)
  · rfl

variable {digits' : List Char} {unit' : Nat}

/-- Of two escapes the second is taken with the first if they are the halves of a pair. -/
theorem unicodeEscape_second (hlength : digits.length = 4)
    (hdigits : natOfHexDigits? digits = some unit) (hlength' : digits'.length = 4)
    (hdigits' : natOfHexDigits? digits' = some unit') (hbody : IsStringBody body)
    (rest : List Char) :
    unicodeEscape (digits ++ '\\' :: 'u' :: (digits' ++ (body ++ rest))) =
      .ok (if isHighHalf unit && isLowHalf unit' then (.char (charOfPair unit unit'), 10)
        else (pointOfUnit unit, 4)) := by
  have hdrop : ∀ more, (digits ++ more).drop 4 = more := fun more => List.drop_left' hlength
  have hlow : codeUnit? (digits' ++ (body ++ rest)) = some unit' :=
    (hbody.codeUnit?_append hlength' rest).trans hdigits'
  have hlong : ¬(digits' ++ (body ++ rest)).length < 5 := by
    have hpos := hbody.length_pos
    rw [List.length_append, List.length_append]
    omega
  rw [unicodeEscape, codeUnit?_append hlength, hdigits]
  dsimp only
  rw [hdrop]
  cases hhigh : isHighHalf unit with
  | false => rfl
  | true =>
    show (if (digits' ++ (body ++ rest)).length < 5 then _ else _) = _
    rw [if_neg hlong, hlow]
    rfl

/-- An escape before the end of a string is read without the text behind the string. The escape of
the first half of a pair takes the escape of the second half with it. -/
theorem exists_unicodeEscape_append (hlength : digits.length = 4)
    (hdigits : natOfHexDigits? digits = some unit) (hbody : IsStringBody body) :
    (∃ point, ∀ rest, unicodeEscape (digits ++ (body ++ rest)) = .ok (point, 4)) ∨
      ∃ point digits' body', body = '\\' :: 'u' :: (digits' ++ body') ∧ digits'.length = 4 ∧
        IsStringBody body' ∧ ∀ rest, unicodeEscape (digits ++ (body ++ rest)) = .ok (point, 10) := by
  cases hbody with
  | close =>
    refine .inl ⟨pointOfUnit unit, ?_⟩
    intro rest
    exact unicodeEscape_alone hlength hdigits (by simp)
  | plain _ hbackslash _ _ =>
    refine .inl ⟨pointOfUnit unit, ?_⟩
    intro rest
    refine unicodeEscape_alone hlength hdigits ?_
    intro later heq
    exact hbackslash (List.cons.inj heq).1
  | @escape k c body hescape _ =>
    refine .inl ⟨pointOfUnit unit, ?_⟩
    intro rest
    refine unicodeEscape_alone hlength hdigits ?_
    intro later heq
    have hk : k = 'u' := (List.cons.inj (List.cons.inj heq).2).1
    rw [hk] at hescape
    cases hescape
  | @unicode digits' body' unit' hlength' hdigits' hbody =>
    have hsecond := unicodeEscape_second hlength hdigits hlength' hdigits' hbody
    by_cases hpair : (isHighHalf unit && isLowHalf unit') = true
    · refine .inr ⟨.char (charOfPair unit unit'), digits', body', rfl, hlength', hbody, ?_⟩
      intro rest
      rw [List.cons_append, List.cons_append, List.append_assoc, hsecond, if_pos hpair]
    · refine .inl ⟨pointOfUnit unit, ?_⟩
      intro rest
      rw [List.cons_append, List.cons_append, List.append_assoc, hsecond, if_neg hpair]

/-- A string is read up to its end, whatever follows. -/
theorem IsStringBody.exists_readString_append (h : IsStringBody body)
    (done : List CodePoint) :
    ∃ s, ∀ opening rest, readString opening done (body ++ rest) = .ok (s, rest) := by
  -- an escape may take a second one with it, so the induction is on the length
  induction hlength : body.length using Nat.strongRecOn generalizing body done with
  | ind n ih =>
    subst hlength
    cases h with
    | close => exact ⟨⟨done.reverse⟩, fun _ _ => readString.eq_2 _ _ _⟩
    | @plain c body hquote hbackslash hcontrol hbody =>
      obtain ⟨s, hs⟩ := ih body.length (Nat.lt_succ_self _) hbody (.char c :: done) rfl
      refine ⟨s, ?_⟩
      intro opening rest
      rw [List.cons_append, readString.eq_6 _ _ _ _ hquote (fun h _ => hbackslash h)
        (fun _ h _ => hbackslash h) (fun _ _ h _ => hbackslash h),
        if_neg (Nat.not_lt_of_le hcontrol), hs]
    | @escape k c body hescape hbody =>
      obtain ⟨s, hs⟩ := ih body.length (by rw [List.length_cons, List.length_cons]; omega) hbody
        (.char c :: done) rfl
      have hk : k ≠ 'u' := by
        rintro rfl
        cases hescape
      refine ⟨s, ?_⟩
      intro opening rest
      rw [List.cons_append, List.cons_append, readString.eq_5 _ _ _ _ hk, hescape]
      exact hs opening rest
    | @unicode digits body unit hdigits hunit hbody =>
      rcases exists_unicodeEscape_append hdigits hunit hbody with
        ⟨point, hpoint⟩ | ⟨point, digits', body', rfl, hdigits', hbody', hpoint⟩
      · obtain ⟨s, hs⟩ := ih body.length (by simp; omega) hbody (point :: done) rfl
        refine ⟨s, ?_⟩
        intro opening rest
        have hdrop : (digits ++ (body ++ rest)).drop 4 = body ++ rest := List.drop_left' hdigits
        rw [List.cons_append, List.cons_append, List.append_assoc, readString.eq_4, hpoint]
        dsimp only
        rw [hdrop, hs]
      · obtain ⟨s, hs⟩ := ih body'.length (by simp; omega) hbody' (point :: done) rfl
        refine ⟨s, ?_⟩
        intro opening rest
        have hdrop : ((digits ++ '\\' :: 'u' :: digits') ++ (body' ++ rest)).drop 10 =
            body' ++ rest := List.drop_left' (by simp [hdigits, hdigits'])
        have hread := hpoint rest
        simp only [List.cons_append, List.append_assoc] at hread hdrop ⊢
        rw [readString.eq_4, hread]
        dsimp only
        rw [hdrop, hs]

/-- What is read of a string is its text. -/
theorem exists_isStringText_of_readString {opening : List Char}
    (h : readString opening [] text = .ok (s, rest)) :
    ∃ body, text = body ++ rest ∧ IsStringBody body ∧ IsStringText body s := by
  obtain ⟨body, rfl, hbody⟩ := exists_isStringBody_of_readString h
  obtain ⟨s', hs'⟩ := hbody.exists_readString_append []
  obtain ⟨rfl, -⟩ := Prod.mk.inj (Except.ok.inj (h.symm.trans (hs' opening rest)))
  exact ⟨body, rfl, hbody, hs'⟩

end SetLang.Json
