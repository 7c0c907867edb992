import SetLang.Proofs.Json.Scalar

/-!
# Texts of numbers and words

What the reader of JSON takes for a number or a word is read again wherever it stands, unless a
number could go on in what follows. A number is read in parts, and each of them is read again before
the next.
-/

namespace SetLang.Json

variable {rest text : List Char}

/-! ## Numbers -/

theorem mem_numberChars_of_isDigit {c : Char} (h : isDigit c = true) : c ∈ numberChars :=
  List.mem_append_right "+-.Ee".toList (mem_of_isDigit h)

theorem mem_numberChars_of_mem_takeWhile {c : Char} (h : c ∈ text.takeWhile isDigit) :
    c ∈ numberChars :=
  mem_numberChars_of_isDigit (List.mem_takeWhile_imp h)

/-- No digit goes on in a text. -/
def EndsDigits (text : List Char) : Prop :=
  ∀ c ∈ text.head?, isDigit c = false

/-- Neither digits nor a fraction go on in a text. -/
def EndsWhole (text : List Char) : Prop :=
  ∀ c ∈ text.head?, isDigit c = false ∧ c ≠ '.'

variable {after part : List Char}

/-- Where a number ends, its integer part ends. -/
theorem EndsNumber.endsWhole (h : EndsNumber text) : EndsWhole text :=
  fun c hc => ⟨(h c hc).1, (h c hc).2.1⟩

/-- Where an integer part ends, a run of digits ends. -/
theorem EndsWhole.endsDigits (h : EndsWhole text) : EndsDigits text :=
  fun c hc => (h c hc).1

/-- A run of digits ends where it ended, whatever follows that is no digit. -/
theorem takeWhile_takeWhile_append (text : List Char) (hafter : EndsDigits after) :
    (text.takeWhile isDigit ++ after).takeWhile isDigit = text.takeWhile isDigit :=
  takeWhile_append_of_head? (fun _ => List.mem_takeWhile_imp) hafter

/-- A part of a number at the head of a text is all that is read of the text, unless the part could
go on in what follows. -/
structure Reads {α : Type} (read : List Char → α) (ends : List Char → Prop)
    (text part : List Char) : Prop where
  begins : part <+: text
  subset : ∀ c ∈ part, c ∈ numberChars
  again : ∀ after, ends after → read (part ++ after) = read text

/-- The digits of an integer part are read as they are, with anything else behind them. -/
theorem reads_wholeDigits (h : wholeDigits text ≠ []) :
    Reads wholeDigits EndsDigits text (wholeDigits text) := by
  unfold wholeDigits at h ⊢
  split at h
  · next more => exact ⟨⟨more, rfl⟩, forall_mem_of_all (by decide), fun _ _ => rfl⟩
  · next hzero =>
    refine ⟨List.takeWhile_prefix _, fun c => mem_numberChars_of_mem_takeWhile, ?_⟩
    intro after hafter
    obtain ⟨more, hmore⟩ := List.takeWhile_prefix isDigit (l := text)
    split
    · next later heq =>
      -- a run of digits begins the text, and no zero does
      obtain ⟨c, digits, hdigits⟩ := List.exists_cons_of_ne_nil h
      rw [hdigits] at heq hmore
      refine absurd ?_ (hzero (digits ++ more))
      rw [← hmore, (List.cons.inj heq).1]
      rfl
    · exact takeWhile_takeWhile_append text hafter

/-- The length of the text of a fraction, with its point. -/
def fractionSize (fraction : List Char) : Nat :=
  if fraction.isEmpty then 0 else fraction.length + 1

/-- A fraction is read as it is, with anything else behind it. -/
theorem exists_reads_fractionDigits (text : List Char) :
    ∃ part, Reads fractionDigits EndsWhole text part ∧
      part.length = fractionSize (fractionDigits text) ∧
      ∀ after, EndsWhole after → EndsDigits (part ++ after) := by
  by_cases hnone : fractionDigits text = []
  · refine ⟨[], ⟨List.nil_prefix, by simp, ?_⟩, by rw [hnone]; rfl, fun _ => EndsWhole.endsDigits⟩
    intro after hafter
    rw [hnone, List.nil_append]
    unfold fractionDigits
    split
    · exact absurd rfl (hafter '.' rfl).2
    · rfl
  · obtain ⟨more, rfl⟩ : ∃ more, text = '.' :: more := by
      unfold fractionDigits at hnone
      split at hnone
      · next more => exact ⟨more, rfl⟩
      · exact absurd rfl hnone
    have hsize : fractionSize (more.takeWhile isDigit) = (more.takeWhile isDigit).length + 1 :=
      if_neg (by simpa [fractionDigits] using hnone)
    refine ⟨'.' :: more.takeWhile isDigit, ⟨?_, ?_, ?_⟩, hsize.symm, ?_⟩
    · exact List.cons_prefix_cons.2 ⟨rfl, List.takeWhile_prefix _⟩
    · exact List.forall_mem_cons.2 ⟨by decide, fun c => mem_numberChars_of_mem_takeWhile⟩
    · exact fun after hafter => takeWhile_takeWhile_append more hafter.endsDigits
    · intro after _ c hc
      obtain rfl := Option.some.inj hc
      decide

/-- The sign before the digits of an exponent, and whether it makes the exponent negative. -/
inductive IsSign : List Char → Bool → List Char → Prop where
  | minus (text : List Char) : IsSign ['-'] true text
  | plus (text : List Char) : IsSign ['+'] false text
  | absent {text : List Char} : (∀ c ∈ text.head?, c ≠ '-' ∧ c ≠ '+') → IsSign [] false text

/-- A text is a sign, possibly none, and what is behind it. -/
theorem exists_isSign (text : List Char) :
    ∃ sign negative more, text = sign ++ more ∧ IsSign sign negative more := by
  match text with
  | [] => exact ⟨[], false, [], rfl, .absent (by simp)⟩
  | c :: more =>
    by_cases hminus : c = '-'
    · subst hminus
      exact ⟨['-'], true, more, rfl, .minus more⟩
    · by_cases hplus : c = '+'
      · subst hplus
        exact ⟨['+'], false, more, rfl, .plus more⟩
      · exact ⟨[], false, c :: more, rfl, .absent (by simp [hminus, hplus])⟩

section

variable {e : Char} {sign : List Char} {negative : Bool}

theorem IsSign.subset (h : IsSign sign negative text) : ∀ c ∈ sign, c ∈ numberChars := by
  cases h with
  | minus | plus | absent => exact forall_mem_of_all (by decide)

/-- The digits behind a sign may be followed by another text. -/
theorem IsSign.takeWhile_append (h : IsSign sign negative text)
    (hdigits : text.takeWhile isDigit ≠ []) (after : List Char) :
    IsSign sign negative (text.takeWhile isDigit ++ after) := by
  cases h with
  | minus => exact .minus _
  | plus => exact .plus _
  | absent =>
    refine .absent ?_
    intro c hc
    have hall : ∀ c ∈ "0123456789".toList, c ≠ '-' ∧ c ≠ '+' :=
      forall_mem_of_all (by decide)
    rw [List.head?_append_of_ne_nil _ hdigits] at hc
    exact hall c (mem_of_isDigit (List.mem_takeWhile_imp (List.mem_of_mem_head? hc)))

/-- An exponent is its letter, a sign and the digits that follow. -/
theorem exponent?_cons (he : e = 'e' ∨ e = 'E') (hsign : IsSign sign negative text) :
    exponent? (e :: (sign ++ text)) =
      if (text.takeWhile isDigit).isEmpty then none
      else some (if negative then -(natOfDigits (text.takeWhile isDigit) : Int)
        else natOfDigits (text.takeWhile isDigit),
          sign.length + 1 + (text.takeWhile isDigit).length) := by
  cases hsign with
  | minus | plus => exact if_pos he
  | absent htext =>
    rw [List.nil_append, exponent?.eq_3 _ _ (fun _ heq => (htext '-' (by rw [heq]; rfl)).1 rfl)
      (fun _ heq => (htext '+' (by rw [heq]; rfl)).2 rfl), if_pos he]
    rfl

end

/-- An exponent is read as it is, with anything else behind it. -/
theorem exists_reads_exponent? (text : List Char) :
    ∃ part, Reads exponent? EndsNumber text part ∧
      part.length = (exponent? text).elim 0 (·.2) ∧
      ∀ after, EndsNumber after → EndsWhole (part ++ after) := by
  by_cases hnone : exponent? text = none
  · refine ⟨[], ⟨List.nil_prefix, by simp, ?_⟩, by rw [hnone]; rfl, fun _ => EndsNumber.endsWhole⟩
    intro after hafter
    rw [hnone]
    exact exponent?_of_endsNumber hafter
  · obtain ⟨e, sign, negative, more, rfl, he, hsign⟩ : ∃ e sign negative more,
        text = e :: (sign ++ more) ∧ (e = 'e' ∨ e = 'E') ∧ IsSign sign negative more := by
      cases text with
      | nil => exact absurd rfl hnone
      | cons e text =>
        obtain ⟨sign, negative, more, rfl, hsign⟩ := exists_isSign text
        refine ⟨e, sign, negative, more, rfl, ?_, hsign⟩
        exact Decidable.byContradiction fun he => hnone (if_neg he)
    rw [exponent?_cons he hsign] at hnone ⊢
    have hdigits : more.takeWhile isDigit ≠ [] := by
      intro hnil
      rw [hnil] at hnone
      exact hnone rfl
    rw [if_neg (mt List.isEmpty_iff.1 hdigits)]
    refine ⟨e :: (sign ++ more.takeWhile isDigit), ⟨?_, ?_, ?_⟩, ?_, ?_⟩
    · refine List.cons_prefix_cons.2 ⟨rfl, ?_⟩
      exact (List.prefix_append_right_inj sign).2 (List.takeWhile_prefix _)
    · refine List.forall_mem_cons.2 ⟨?_, ?_⟩
      · rcases he with rfl | rfl <;> decide
      · exact List.forall_mem_append.2
          ⟨hsign.subset, fun c => mem_numberChars_of_mem_takeWhile⟩
    · intro after hafter
      have hagain := exponent?_cons he (hsign.takeWhile_append hdigits after)
      rw [takeWhile_takeWhile_append more hafter.endsWhole.endsDigits] at hagain
      rw [List.cons_append, List.append_assoc, hagain, exponent?_cons he hsign]
    · rw [List.length_cons, List.length_append]
      show _ = sign.length + 1 + _
      omega
    · intro after _ c hc
      obtain rfl := Option.some.inj hc
      rcases he with rfl | rfl <;> decide

/-- A number is read in three parts, one after the other. -/
theorem readUnsigned_parts (negative : Bool) {whole fraction exponent : List Char}
    (hne : whole ≠ []) (hwhole : wholeDigits (whole ++ (fraction ++ (exponent ++ rest))) = whole)
    (hfraction : fraction.length = fractionSize (fractionDigits (fraction ++ (exponent ++ rest))))
    (hexponent : exponent.length = (exponent? (exponent ++ rest)).elim 0 (·.2)) :
    readUnsigned negative (whole ++ (fraction ++ (exponent ++ rest))) =
      some ((numberValue negative whole (fractionDigits (fraction ++ (exponent ++ rest)))
        ((exponent? (exponent ++ rest)).map (·.1))).map (·, rest)) := by
  generalize hdigits : fractionDigits (fraction ++ (exponent ++ rest)) = digits at hfraction ⊢
  have hnonempty : ¬whole.isEmpty = true := mt List.isEmpty_iff.1 hne
  have hafter : (if digits.isEmpty then fraction ++ (exponent ++ rest)
      else (fraction ++ (exponent ++ rest)).drop (digits.length + 1)) = exponent ++ rest := by
    unfold fractionSize at hfraction
    split at hfraction
    · next hempty =>
      rw [if_pos hempty, List.eq_nil_of_length_eq_zero hfraction, List.nil_append]
    · next hempty => rw [if_neg hempty, List.drop_left' hfraction]
  unfold readUnsigned
  dsimp only
  rw [hwhole, if_neg hnonempty, List.drop_left, hdigits, hafter, ← hexponent, List.drop_left]

/-- An integer part has digits only. -/
theorem isDigit_of_mem_wholeDigits {c : Char} (h : c ∈ wholeDigits text) : isDigit c = true := by
  unfold wholeDigits at h
  split at h
  · rw [List.mem_singleton.1 h]
    rfl
  · exact List.mem_takeWhile_imp h

/-- The text of a number without its sign, which begins with a digit. -/
structure IsUnsigned (negative : Bool) (part : List Char) (value : Json WideText) : Prop where
  begins : ∃ c more, part = c :: more ∧ isDigit c = true
  subset : ∀ c ∈ part, c ∈ numberChars
  reads : ∀ rest, EndsNumber rest → readUnsigned negative (part ++ rest) = some (.ok (value, rest))

/-- What is read of a number behind its sign is its text. -/
theorem exists_isUnsigned_of_readUnsigned {negative : Bool} {value : Json WideText}
    (h : readUnsigned negative text = some (.ok (value, rest))) :
    ∃ part, text = part ++ rest ∧ IsUnsigned negative part value := by
  have hne : wholeDigits text ≠ [] := by
    intro hnil
    unfold readUnsigned at h
    rw [hnil] at h
    cases h
  have hdigit : ∀ c ∈ wholeDigits text, isDigit c = true := fun _ => isDigit_of_mem_wholeDigits
  have hwhole := reads_wholeDigits hne
  generalize hw : wholeDigits text = whole at hne hdigit hwhole
  obtain ⟨text, rfl⟩ := hwhole.begins
  obtain ⟨fraction, hfraction, hfractionSize, hfractionEnds⟩ := exists_reads_fractionDigits text
  obtain ⟨text, rfl⟩ := hfraction.begins
  obtain ⟨exponent, hexponent, hexponentSize, hexponentEnds⟩ := exists_reads_exponent? text
  obtain ⟨text, rfl⟩ := hexponent.begins
  rw [readUnsigned_parts negative hne hw hfractionSize hexponentSize] at h
  obtain ⟨number, hnumber, hpair⟩ := exists_of_map_eq_ok (Option.some.inj h)
  obtain ⟨rfl, rfl⟩ := Prod.mk.inj hpair
  refine ⟨whole ++ (fraction ++ exponent), by simp, ?_, ?_, ?_⟩
  · obtain ⟨c, more, rfl⟩ := List.exists_cons_of_ne_nil hne
    exact ⟨c, more ++ (fraction ++ exponent), rfl, hdigit c List.mem_cons_self⟩
  · exact List.forall_mem_append.2 ⟨fun c hc => mem_numberChars_of_isDigit (hdigit c hc),
      List.forall_mem_append.2 ⟨hfraction.subset, hexponent.subset⟩⟩
  · intro after hafter
    have hexponentAgain := hexponent.again after hafter
    have hfractionAgain := hfraction.again _ (hexponentEnds after hafter)
    have hwholeAgain := hwhole.again _ (hfractionEnds _ (hexponentEnds after hafter))
    rw [hw] at hwholeAgain
    rw [← hexponentAgain] at hexponentSize
    rw [← hfractionAgain] at hfractionSize
    rw [List.append_assoc, List.append_assoc,
      readUnsigned_parts negative hne hwholeAgain hfractionSize hexponentSize, hexponentAgain,
      hfractionAgain, hnumber]
    rfl

/-! ## Words and numbers -/

theorem mem_scalarChars_of_mem_numberChars {c : Char} (h : c ∈ numberChars) : c ∈ scalarChars :=
  List.mem_append_left _ h

/-- A word with a value is read as this value. -/
theorem readScalar_word {word : List Char} {value : Json WideText} (h : (word, value) ∈ wordValues)
    (rest : List Char) : readScalar (word ++ rest) = .ok (value, rest) := by
  simp only [wordValues, List.mem_cons, List.not_mem_nil, or_false, Prod.mk.injEq] at h
  rcases h with ⟨rfl, rfl⟩ | ⟨rfl, rfl⟩ | ⟨rfl, rfl⟩ | ⟨rfl, rfl⟩ | ⟨rfl, rfl⟩ | ⟨rfl, rfl⟩ <;> rfl

theorem mem_scalarChars_of_mem_word {word : List Char} {value : Json WideText}
    (h : (word, value) ∈ wordValues) : ∀ c ∈ word, c ∈ scalarChars :=
  fun _ hc => List.mem_append_right _ (List.mem_flatMap.2 ⟨_, h, hc⟩)

/-- A word is the text of its value. -/
theorem isText_of_mem_wordValues {word : List Char} {value : Json WideText}
    (h : (word, value) ∈ wordValues) : IsText word value := by
  have hne : ∀ p ∈ wordValues, p.1 ≠ [] := by
    simp [wordValues]
  have hsubset := mem_scalarChars_of_mem_word h
  obtain ⟨c, more, rfl⟩ := List.exists_cons_of_ne_nil (hne _ h)
  exact isText_of_readScalar (hsubset c List.mem_cons_self) fun rest _ => readScalar_word h rest

/-- What is read of a number is its text. -/
theorem exists_isText_of_readNumber {value : Json WideText}
    (h : readNumber text = some (.ok (value, rest))) :
    ∃ part, text = part ++ rest ∧ (∀ c ∈ part, c ∈ scalarChars) ∧ IsText part value := by
  unfold readNumber at h
  split at h
  · obtain ⟨part, rfl, hpart⟩ := exists_isUnsigned_of_readUnsigned h
    obtain ⟨c, more, rfl, hc⟩ := hpart.begins
    have hsubset : ∀ d ∈ '-' :: c :: more, d ∈ scalarChars := List.forall_mem_cons.2
      ⟨by decide, fun d hd => mem_scalarChars_of_mem_numberChars (hpart.subset d hd)⟩
    refine ⟨'-' :: c :: more, rfl, hsubset, isText_of_readScalar (by decide) ?_⟩
    intro rest hrest
    have hnumber : readNumber ('-' :: c :: more ++ rest) = some (.ok (value, rest)) :=
      hpart.reads rest hrest
    rw [readScalar, hnumber, List.cons_append, List.cons_append,
      (find?_wordValues_eq_none (notMem_wordHeads_of_isDigit hc) (more ++ rest)).2]
    rfl
  · obtain ⟨part, rfl, hpart⟩ := exists_isUnsigned_of_readUnsigned h
    obtain ⟨c, more, rfl, hc⟩ := hpart.begins
    have hsubset : ∀ d ∈ c :: more, d ∈ scalarChars :=
      fun d hd => mem_scalarChars_of_mem_numberChars (hpart.subset d hd)
    refine ⟨c :: more, rfl, hsubset, isText_of_readScalar (hsubset c List.mem_cons_self) ?_⟩
    intro rest hrest
    have hsign : ∀ later, c :: more ++ rest ≠ '-' :: later := by
      intro later heq
      rw [(List.cons.inj heq).1] at hc
      exact absurd hc (by decide)
    rw [readScalar, readNumber.eq_2 _ hsign, hpart.reads rest hrest, List.cons_append,
      (find?_wordValues_eq_none (notMem_wordHeads_of_isDigit hc) (more ++ rest)).1]
    rfl

/-- What is read of a word or a number is its text. -/
theorem exists_isText_of_readScalar {value : Json WideText}
    (h : readScalar text = .ok (value, rest)) :
    ∃ part, text = part ++ rest ∧ (∀ c ∈ part, c ∈ scalarChars) ∧ IsText part value := by
  unfold readScalar at h
  split at h
  · next word value' hfind =>
    obtain ⟨rfl, rfl⟩ := Prod.mk.inj (Except.ok.inj h)
    have hbegins := List.find?_some hfind
    obtain ⟨after, rfl⟩ := List.isPrefixOf_iff_prefix.1 hbegins
    have hmem := List.mem_of_find?_eq_some hfind
    exact ⟨word, by rw [List.drop_left], mem_scalarChars_of_mem_word hmem,
      isText_of_mem_wordValues hmem⟩
  · cases hnumber : readNumber text with
    | none =>
      rw [hnumber] at h
      cases h
    | some result =>
      rw [hnumber] at h
      obtain rfl : result = .ok (value, rest) := h
      exact exists_isText_of_readNumber hnumber

/-- The characters that words and numbers begin with. -/
def scalarHeads : List Char :=
  "0123456789".toList ++ wordHeads

/-- What begins no scalar is refused where it stands. -/
theorem readScalar_eq_error {c : Char} (hc : c ∉ scalarHeads) (text : List Char) :
    readScalar (c :: text) = .error (.malformed .expectedValue (c :: text)) := by
  have hnodigit : c ∉ "0123456789".toList := fun h => hc (List.mem_append_left _ h)
  have hnohead : c ∉ wordHeads := fun h => hc (List.mem_append_right _ h)
  have hdigit : ¬isDigit c = true := fun h => hnodigit (mem_of_isDigit h)
  have hwhole : wholeDigits (c :: text) = [] := by
    unfold wholeDigits
    split
    · next heq =>
      obtain rfl : c = '0' := (List.cons.inj heq).1
      exact absurd (by decide) hnodigit
    · rw [List.takeWhile_cons_of_neg hdigit]
  have hsign : ∀ more, c :: text ≠ '-' :: more := by
    intro more heq
    obtain rfl : c = '-' := (List.cons.inj heq).1
    exact hnohead (by decide)
  have hnumber : readNumber (c :: text) = none := by
    rw [readNumber.eq_2 _ hsign, readUnsigned, hwhole]
    rfl
  rw [readScalar, (find?_wordValues_eq_none hnohead text).1, hnumber]
  rfl

/-- A value begins a string, an array or an object, or it begins as words and numbers do. -/
theorem IsText.head_mem {c : Char} {more : List Char} {value : Json WideText}
    (h : IsText (c :: more) value) : c ∈ openings ++ scalarHeads := by
  rw [List.mem_append]
  refine Decidable.byContradiction fun hc => ?_
  obtain ⟨hopening, hhead⟩ := not_or.1 hc
  have hread := h.reads (more.length + 1) [] (Nat.le_refl _) (endsNumber_spaces spaces_nil)
  rw [List.append_nil, readValue_scalar hopening, readScalar_eq_error hhead] at hread
  cases hread

end SetLang.Json
