import SetLang.Proofs.Token.Partition

/-!
# Lexemes before another text

Where a lexeme ends depends on what stands behind it, but only up to the next blank or number sign:
no lexeme that could be longer reaches over one of these. So a text is cut as before if it is changed
behind a place where a gap begins, two texts with a gap between them have the tokens of both, and a
spelling with a blank behind it is a lexeme.
-/

namespace SetLang

/-! ## Rests that agree up to a gap -/

/-- Two texts agree up to a gap if they begin alike, and behind that the second one is at its end or
goes on with what begins a gap. -/
def AgreesUpToGap (rest rest' : List Char) : Prop :=
  ∃ shared tail tail', rest = shared ++ tail ∧ rest' = shared ++ tail' ∧
    ∀ c ∈ tail'.head?, Text.isBlank c = true ∨ c = '#'

namespace AgreesUpToGap

variable {rest rest' : List Char} {p : Char → Bool}

/-- A text agrees with itself. -/
theorem refl (rest : List Char) : AgreesUpToGap rest rest :=
  ⟨rest, [], [], (List.append_nil rest).symm, (List.append_nil rest).symm, by simp⟩

/-- Texts that agree up to a gap do so behind the same text. -/
theorem append (xs : List Char) (h : AgreesUpToGap rest rest') :
    AgreesUpToGap (xs ++ rest) (xs ++ rest') := by
  obtain ⟨shared, tail, tail', rfl, rfl, htail⟩ := h
  exact ⟨xs ++ shared, tail, tail', by rw [List.append_assoc], by rw [List.append_assoc], htail⟩

/-- A text agrees with what it becomes when a gap and anything else is put behind it. -/
theorem append_right {c : Char} (hc : Text.isBlank c = true ∨ c = '#') (rest tail : List Char) :
    AgreesUpToGap rest (rest ++ c :: tail) := by
  refine ⟨rest, [], c :: tail, (List.append_nil rest).symm, rfl, ?_⟩
  intro d hd
  obtain rfl := Option.some.inj hd
  exact hc

/-- A text agrees with any other one that begins a gap. -/
theorem of_head? (rest : List Char)
    (h : ∀ c ∈ rest'.head?, Text.isBlank c = true ∨ c = '#') : AgreesUpToGap rest rest' :=
  ⟨[], rest, rest', rfl, rfl, h⟩

/-- What goes on with no character of a class still does, if the class has no blank and no number
sign. -/
theorem head?_eq_false (h : AgreesUpToGap rest rest')
    (hgap : ∀ c, Text.isBlank c = true ∨ c = '#' → p c = false)
    (hrest : ∀ c ∈ rest.head?, p c = false) : ∀ c ∈ rest'.head?, p c = false := by
  obtain ⟨shared, tail, tail', rfl, rfl, htail⟩ := h
  cases shared with
  | nil => exact fun c hc => hgap c (htail c hc)
  | cons first shared => exact hrest

/-- A text without blanks and number signs that begins the second one begins the first one too. -/
theorem begins_of_begins {x y : List Char} (h : AgreesUpToGap rest rest')
    (hy : ∀ c ∈ y, Text.isBlank c = false ∧ c ≠ '#') (hbegins : y <+: x ++ rest') :
    y <+: x ++ rest := by
  obtain ⟨shared, tail, tail', rfl, rfl, htail⟩ := h
  rw [← List.append_assoc] at hbegins ⊢
  refine (List.prefix_of_prefix_length_le hbegins (List.prefix_append _ tail') ?_).trans
    (List.prefix_append _ tail)
  -- otherwise the first character behind what is shared would be in it
  by_contra hlong
  obtain ⟨more, rfl⟩ :=
    List.prefix_of_prefix_length_le (List.prefix_append _ tail') hbegins (Nat.le_of_not_le hlong)
  rw [List.prefix_append_right_inj] at hbegins
  cases more with
  | nil => simp at hlong
  | cons c more =>
    obtain ⟨rest, rfl⟩ := hbegins
    obtain ⟨hblank, hsign⟩ := hy c (by simp)
    rcases htail c rfl with hc | hc
    · rw [hc] at hblank
      cases hblank
    · exact hsign hc

end AgreesUpToGap

/-! ## Classes of characters at a gap -/

/-- No character of a word is blank. -/
theorem isBlank_eq_false_of_isWordChar {c : Char} (h : isWordChar c = true) :
    Text.isBlank c = false := by
  have hcode := toNat_of_isWordChar h
  simp only [Text.isBlank, Bool.or_eq_false_iff, Bool.and_eq_false_iff, decide_eq_false_iff_not,
    beq_eq_false_iff_ne]
  omega

/-- A gap does not begin with a character of a word. -/
theorem isWordChar_eq_false_of_gap {c : Char} (h : Text.isBlank c = true ∨ c = '#') :
    isWordChar c = false := by
  rcases h with h | rfl
  · rw [← Bool.not_eq_true]
    intro hword
    rw [isBlank_eq_false_of_isWordChar hword] at h
    cases h
  · decide

/-- A gap does not begin with a digit. -/
theorem isDigit_eq_false_of_gap {c : Char} (h : Text.isBlank c = true ∨ c = '#') :
    isDigit c = false := by
  have hword := isWordChar_eq_false_of_gap h
  rw [isWordChar, Char.isAlphanum, Bool.or_eq_false_iff, Bool.or_eq_false_iff] at hword
  rw [isDigit_eq_isDigit]
  exact hword.1.2

/-- A class without blanks and number signs has no character that begins a gap. -/
theorem not_gap_of_class {p : Char → Bool} {c : Char}
    (hp : ∀ d, Text.isBlank d = true ∨ d = '#' → p d = false) (hc : p c = true) :
    Text.isBlank c = false ∧ c ≠ '#' := by
  rw [← Bool.not_eq_true, ← not_or]
  intro hgap
  rw [hp c hgap] at hc
  cases hc

theorem not_gap_of_isWordChar {c : Char} (h : isWordChar c = true) :
    Text.isBlank c = false ∧ c ≠ '#' :=
  not_gap_of_class (fun _ => isWordChar_eq_false_of_gap) h

theorem not_gap_of_isDigit {c : Char} (h : isDigit c = true) : Text.isBlank c = false ∧ c ≠ '#' :=
  not_gap_of_class (fun _ => isDigit_eq_false_of_gap) h

/-- No fixed spelling has a blank or a number sign in it. -/
theorem notMem_spelling {y : List Char} (h : (spelled? (String.ofList y)).isSome) :
    ∀ c ∈ y, Text.isBlank c = false ∧ c ≠ '#' := by
  have hall : ∀ p ∈ spellings, p.1.toList.all (fun c => !Text.isBlank c && c != '#') = true := by
    decide
  obtain ⟨kind, hkind⟩ := Option.isSome_iff_exists.1 h
  have hnone := hall _ (mem_spellings_of_spelled? hkind)
  rw [String.toList_ofList, List.all_eq_true] at hnone
  intro c hc
  simpa using hnone c hc

/-! ## Lexemes at a gap -/

section

variable {resolve : Resolver} {x rest rest' : List Char} {kind : TokenKind} {value : Value}

/-- A lexeme is one before any rest that agrees up to a gap. -/
theorem IsLexeme.of_agreesUpToGap (h : IsLexeme resolve x rest kind value)
    (hagrees : AgreesUpToGap rest rest') : IsLexeme resolve x rest' kind value := by
  cases h with
  | word hfirst hmore hend hkind =>
    exact .word hfirst hmore
      (hagrees.head?_eq_false (fun _ => isWordChar_eq_false_of_gap) hend) hkind
  | integer hdigits hend hlength =>
    exact .integer hdigits
      (hagrees.head?_eq_false (fun _ => isDigit_eq_false_of_gap) hend) hlength
  | quoted hbody => exact .quoted hbody
  | tested hbody => exact .tested hbody
  | mark hsymbol hlongest =>
    exact .mark hsymbol ⟨hlongest.1, fun y hy hbegins =>
      hlongest.2 y hy (hagrees.begins_of_begins (notMem_spelling hy) hbegins)⟩
  | @unknown c _ hsymbol hnone =>
    exact .unknown hsymbol fun y hy hbegins =>
      hnone y hy (hagrees.begins_of_begins (x := [c]) (notMem_spelling hy) hbegins)

/-- No gap begins where a lexeme that is not an unknown character does. -/
theorem IsLexeme.beginsNoGap (h : IsLexeme resolve x rest kind value) (hkind : kind ≠ .unknown)
    (tail : List Char) : BeginsNoGap (x ++ tail) := by
  cases h with
  | @word c _ _ _ hfirst =>
    rintro d hd
    obtain rfl : c = d := Option.some.inj hd
    exact not_gap_of_isWordChar (isWordChar_of_isWordStart hfirst)
  | @integer c _ _ hdigits =>
    rintro d hd
    obtain rfl : c = d := Option.some.inj hd
    exact not_gap_of_isDigit (hdigits c List.mem_cons_self)
  | quoted =>
    rintro d hd
    obtain rfl : '"' = d := Option.some.inj hd
    decide
  | tested =>
    rintro d hd
    obtain rfl : '\'' = d := Option.some.inj hd
    decide
  | @mark c _ _ _ _ hlongest =>
    rintro d hd
    obtain rfl : c = d := Option.some.inj hd
    exact notMem_spelling (by rw [hlongest.1]; rfl) c List.mem_cons_self
  | unknown => exact absurd rfl hkind

/-- A fixed spelling at the end of a text is a lexeme. -/
theorem isLexeme_of_spelled? (resolve : Resolver) (h : spelled? (String.ofList x) = some kind) :
    IsLexeme resolve x [] kind (.text (String.ofList x)) := by
  have hmem := mem_spellings_of_spelled? h
  -- the complement is spelled like a word, and all other spellings begin with a symbol
  have hall : ∀ p ∈ spellings, p.1 = "c" ∨ p.1.toList.head?.any (IsSymbol ·) = true := by decide
  rcases hall _ hmem with hcomplement | hfirst
  · obtain rfl : x = ['c'] := by
      rw [← String.toList_ofList (l := x)]
      exact congrArg String.toList hcomplement
    exact .word (by decide) (by simp) (by simp) (.spelled h)
  · rw [String.toList_ofList, Option.any_eq_true] at hfirst
    obtain ⟨c, hc, hsymbol⟩ := hfirst
    obtain ⟨more, rfl⟩ := List.head?_eq_some_iff.1 hc
    refine .mark (of_decide_eq_true hsymbol) ⟨h, fun y _ hbegins => ?_⟩
    rw [List.append_nil] at hbegins
    exact hbegins.length_le

end

/-! ## Gaps before another rest -/

namespace IsGap

variable {g h rest : List Char}

/-- Blanks are a gap, whatever follows. -/
theorem of_blanks (hg : ∀ c ∈ g, Text.isBlank c = true) (rest : List Char) : IsGap g rest := by
  induction g with
  | nil => exact .nil rest
  | cons c g ih =>
    obtain ⟨hc, hg⟩ := List.forall_mem_cons.1 hg
    exact .blank hc (ih hg)

/-- A gap and one behind it are one gap. -/
theorem append (hg : IsGap g (h ++ rest)) (hh : IsGap h rest) : IsGap (g ++ h) rest := by
  generalize htext : h ++ rest = text at hg
  induction hg with
  | nil => exact hh
  | blank hc _ ih => exact .blank hc (ih htext)
  | @comment body g _ hbody hend _ ih =>
    subst htext
    rw [List.cons_append, List.append_assoc]
    refine .comment hbody ?_ (ih rfl)
    rwa [List.append_assoc]

/-- What a gap begins with is a gap at the end of a text. -/
theorem of_append {tail : List Char} (h : IsGap (g ++ tail) rest) : IsGap g [] := by
  generalize htext : g ++ tail = text at h
  induction h generalizing g with
  | nil =>
    obtain ⟨rfl, -⟩ := List.append_eq_nil_iff.1 htext
    exact .nil []
  | @blank c _ _ hc _ ih =>
    cases g with
    | nil => exact .nil []
    | cons d g =>
      obtain ⟨rfl, hmore⟩ := List.cons.inj htext
      exact .blank hc (ih hmore)
  | @comment body inner _ hbody hend _ ih =>
    cases g with
    | nil => exact .nil []
    | cons d g =>
      obtain ⟨rfl, hmore⟩ := List.cons.inj htext
      rcases List.append_eq_append_iff.1 hmore with ⟨more, rfl, -⟩ | ⟨more, rfl, rfl⟩
      · -- the end is in the comment
        rw [← List.append_nil g]
        exact .comment (fun hmem => hbody (List.mem_append_left more hmem)) (by simp) (.nil [])
      · refine .comment hbody ?_ (ih rfl)
        cases more with
        | nil => simp
        | cons c more => exact hend

/-- A gap before a text that begins with a lexeme is one before any text. -/
theorem of_beginsNoGap (hg : IsGap g rest) (hrest : BeginsNoGap rest) (hne : rest ≠ [])
    (rest' : List Char) : IsGap g rest' := by
  induction hg with
  | nil => exact .nil rest'
  | blank hc _ ih => exact .blank hc (ih hrest hne)
  | @comment body g rest hbody hend _ ih =>
    refine .comment hbody ?_ (ih hrest hne)
    cases g with
    | nil =>
      -- a comment that ends here is followed by a line feed, which begins a gap
      obtain ⟨c, more, rfl⟩ := List.exists_cons_of_ne_nil hne
      obtain rfl := hend c rfl
      exact absurd (hrest '\n' rfl).1 (by decide)
    | cons d g => exact hend

/-- A last gap is one before a line feed. -/
theorem before_lineFeed (hg : IsGap g []) (tail : List Char) : IsGap g ('\n' :: tail) := by
  generalize hnil : ([] : List Char) = rest at hg
  induction hg with
  | nil => exact .nil _
  | blank hc _ ih => exact .blank hc (ih hnil)
  | @comment body g rest hbody hend _ ih =>
    refine .comment hbody ?_ (ih hnil)
    cases g with
    | nil => simp
    | cons d g => exact hend

end IsGap

/-- No lexeme ends with a blank. -/
theorem IsLexeme.isBlank_last {resolve : Resolver} {x rest : List Char} {kind : TokenKind}
    {value : Value} (h : IsLexeme resolve x rest kind value) (hnone : BeginsNoGap (x ++ rest)) :
    ∀ c ∈ x.getLast?, Text.isBlank c = false := by
  intro c hc
  have hmem : c ∈ x := List.mem_of_getLast? hc
  cases h with
  | word hfirst hmore =>
    rcases List.mem_cons.1 hmem with rfl | hmem
    · exact (not_gap_of_isWordChar (isWordChar_of_isWordStart hfirst)).1
    · exact (not_gap_of_isWordChar (hmore c hmem)).1
  | integer hdigits => exact (not_gap_of_isDigit (hdigits c hmem)).1
  | quoted | tested =>
    rw [← List.cons_append, List.getLast?_concat] at hc
    obtain rfl := Option.some.inj hc
    decide
  | mark _ hlongest => exact (notMem_spelling (by rw [hlongest.1]; rfl) c hmem).1
  | unknown =>
    obtain rfl := List.mem_singleton.1 hmem
    exact (hnone c rfl).1

/-! ## Texts one after the other -/

/-- What a token is apart from its place. -/
def Token.content (t : Token) : TokenKind × Value :=
  (t.kind, t.value)

namespace Tokenized

variable {resolve : Resolver} {p : Text.Place} {g text : List Char} {ts : List Token}

/-- A gap in front of a text makes no token. -/
theorem gap_append (hg : IsGap g text) (h : Tokenized resolve (p.afterAll g) text ts) :
    Tokenized resolve p (g ++ text) ts := by
  generalize hstart : p.afterAll g = start at h
  cases h with
  | @done _ final hfinal =>
    subst hstart
    rw [← Text.Place.afterAll_append]
    exact .done (.append (by rwa [List.append_nil]) hfinal)
  | @lexeme _ h x rest t ts hgap hnone hx ht hrest =>
    subst hstart
    rw [← Text.Place.afterAll_append] at ht hrest
    rw [← List.append_assoc]
    refine .lexeme (hg.append hgap) hnone hx ht ?_
    rwa [List.append_assoc]

/-- A blank in front of a text can be taken off. -/
theorem of_blank_cons {c : Char} (hc : Text.isBlank c = true)
    (h : Tokenized resolve p (c :: text) ts) : Tokenized resolve (p.afterAll [c]) text ts := by
  have hsign : c ≠ '#' := by
    rintro rfl
    exact absurd hc (by decide)
  have hgap {g rest : List Char} (h : IsGap (c :: g) rest) : IsGap g rest := by
    cases h with
    | blank _ hg => exact hg
    | comment => exact absurd rfl hsign
  generalize hall : c :: text = all at h
  cases h with
  | done hg =>
    subst hall
    rw [← List.singleton_append, Text.Place.afterAll_append]
    exact .done (hgap hg)
  | @lexeme _ g x rest t ts hg hnone hx ht hrest =>
    cases g with
    | nil =>
      rw [List.nil_append] at hall
      rw [← hall] at hnone
      rw [(hnone c rfl).1] at hc
      cases hc
    | cons d g =>
      obtain ⟨rfl, rfl⟩ := List.cons.inj hall
      rw [← List.singleton_append, Text.Place.afterAll_append] at ht
      rw [List.cons_append, ← List.singleton_append, Text.Place.afterAll_append] at hrest
      exact .lexeme (hgap hg) hnone hx ht hrest

/-- Blanks in front of a text move its tokens and nothing else. -/
theorem of_blanks_append (hg : ∀ c ∈ g, Text.isBlank c = true)
    (h : Tokenized resolve p (g ++ text) ts) : Tokenized resolve (p.afterAll g) text ts := by
  induction g generalizing p with
  | nil => exact h
  | cons c g ih =>
    obtain ⟨hc, hg⟩ := List.forall_mem_cons.1 hg
    rw [← List.singleton_append, Text.Place.afterAll_append]
    exact ih hg (of_blank_cons hc h)

/-- Blanks behind a text can be taken off, and only the end mark comes to another place. -/
theorem exists_of_append_blanks (hg : ∀ c ∈ g, Text.isBlank c = true)
    (h : Tokenized resolve p (text ++ g) ts) :
    ∃ us, Tokenized resolve p text us ∧ us.map Token.content = ts.map Token.content := by
  generalize hall : text ++ g = all at h
  induction h generalizing text with
  | done hgap =>
    subst hall
    exact ⟨_, .done (IsGap.of_append hgap), rfl⟩
  | @lexeme p front x rest t ts hfront hnone hx ht _ ih =>
    have hbehind : ∃ more, text = front ++ (x ++ more) ∧ rest = more ++ g := by
      rcases List.append_eq_append_iff.1 hall with ⟨more, rfl, rfl⟩ | ⟨more, rfl, hmore⟩
      · -- the lexeme would begin with a blank
        obtain ⟨c, x, rfl⟩ := List.exists_cons_of_ne_nil hx.ne_nil
        have hblank := hg c (by simp)
        rw [(hnone c rfl).1] at hblank
        cases hblank
      · rcases List.append_eq_append_iff.1 hmore with ⟨more', rfl, rfl⟩ | ⟨blanks, rfl, rfl⟩
        · exact ⟨more', rfl, rfl⟩
        · rcases List.eq_nil_or_concat blanks with rfl | ⟨blanks, c, rfl⟩
          · exact ⟨[], by simp, rfl⟩
          · -- the lexeme would end with a blank
            have hblank := hg c (by simp)
            rw [hx.isBlank_last hnone c (by simp)] at hblank
            cases hblank
    obtain ⟨more, rfl, rfl⟩ := hbehind
    obtain ⟨us, hus, hcontents⟩ := ih rfl
    have hagrees : AgreesUpToGap (more ++ g) more :=
      ⟨more, g, [], rfl, (List.append_nil more).symm, by simp⟩
    have hbegins : BeginsNoGap (x ++ more) := by
      obtain ⟨c, x, rfl⟩ := List.exists_cons_of_ne_nil hx.ne_nil
      exact hnone
    exact ⟨t :: us, .lexeme (hfront.of_beginsNoGap hnone hx.append_ne_nil _) hbegins
      (hx.of_agreesUpToGap hagrees) ht hus, congrArg (t.content :: ·) hcontents⟩

/-- A text has the same tokens wherever it begins, at other places. -/
theorem exists_moved (h : Tokenized resolve p text ts) (q : Text.Place) :
    ∃ us, Tokenized resolve q text us ∧ us.map Token.content = ts.map Token.content := by
  induction h generalizing q with
  | @done p g hgap => exact ⟨_, .done hgap, rfl⟩
  | @lexeme p g x rest t ts hgap hnone hx ht _ ih =>
    obtain ⟨us, hus, hcontents⟩ := ih (q.afterAll (g ++ x))
    exact ⟨⟨t.kind, t.value, q.afterAll g⟩ :: us, .lexeme hgap hnone hx rfl hus,
      congrArg (t.content :: ·) hcontents⟩

/-- Two texts with a line feed between them have the tokens of the first one without its end mark,
and then those of the second one. -/
theorem append_lineFeed {text' : List Char} {us : List Token} (h : Tokenized resolve p text ts)
    (h' : Tokenized resolve (p.afterAll (text ++ ['\n'])) text' us) :
    Tokenized resolve p (text ++ '\n' :: text') (ts.dropLast ++ us) := by
  induction h with
  | @done p g hgap =>
    have hblank : Text.isBlank '\n' = true := by decide
    have hnewline : IsGap ['\n'] text' := .blank hblank (.nil text')
    have hall := gap_append (.append (hgap.before_lineFeed text') hnewline) h'
    rwa [List.append_assoc] at hall
  | @lexeme p g x rest t ts hgap hnone hx ht hrest ih =>
    have hts : (t :: ts).dropLast = t :: ts.dropLast := by
      cases hrest <;> rfl
    have hbegins : BeginsNoGap (x ++ (rest ++ '\n' :: text')) := by
      obtain ⟨c, more, rfl⟩ := List.exists_cons_of_ne_nil hx.ne_nil
      exact hnone
    have hplace : p.afterAll (g ++ (x ++ rest) ++ ['\n']) =
        (p.afterAll (g ++ x)).afterAll (rest ++ ['\n']) := by
      rw [← Text.Place.afterAll_append]
      simp
    rw [hplace] at h'
    rw [hts, List.append_assoc, List.append_assoc]
    exact .lexeme (hgap.of_beginsNoGap hnone hx.append_ne_nil _) hbegins
      (hx.of_agreesUpToGap (.append_right (.inl (by decide)) rest text')) ht (ih h')

/-- Two texts on lines of their own have the tokens of both. -/
theorem exists_append_lineFeed {q : Text.Place} {text' : List Char} {us : List Token}
    (h : Tokenized resolve p text ts) (h' : Tokenized resolve q text' us) :
    ∃ all, Tokenized resolve p (text ++ '\n' :: text') all ∧
      all.map Token.content = (ts.dropLast ++ us).map Token.content := by
  obtain ⟨moved, hmoved, hcontents⟩ := h'.exists_moved (p.afterAll (text ++ ['\n']))
  refine ⟨_, h.append_lineFeed hmoved, ?_⟩
  rw [List.map_append, List.map_append, hcontents]

end Tokenized

end SetLang
