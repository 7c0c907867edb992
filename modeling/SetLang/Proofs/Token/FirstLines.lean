import SetLang.Proofs.Text.Join
import SetLang.Proofs.Token.Boundary

/-!
# The first lines of a text

A text that is cut off at the end of a line has the tokens of the lines that are left, and no fault,
as long as no lexeme goes on from one line to the next. Only a character literal can do that, with a
line feed between its quotes. Main statement: the first lines of a text have exactly the tokens that
are placed on these lines.
-/

namespace SetLang

/-! ## Lines -/

namespace Text

/-- The lines of a text: what stands before, between and behind its line feeds. -/
def sourceLines (text : List Char) : List String :=
  (splitAtEach '\n' text).map String.ofList

/-- The first lines of a text, with line feeds between them. -/
def firstLines (count : Nat) (text : List Char) : String :=
  joinWith "\n" ((sourceLines text).take count)

theorem sourceLines_ne_nil (text : List Char) : sourceLines text ≠ [] := by
  rw [sourceLines, Ne, List.map_eq_nil_iff]
  by_cases h : '\n' ∈ text
  · obtain ⟨line, rest, rfl, hline⟩ := List.eq_append_cons_of_mem h
    rw [splitAtEach_append_cons hline]
    exact List.cons_ne_nil _ _
  · rw [splitAtEach_of_notMem h]
    exact List.cons_ne_nil _ _

theorem toList_joinWith_cons (first : String) {more : List String} (h : more ≠ []) :
    (joinWith "\n" (first :: more)).toList = first.toList ++ '\n' :: (joinWith "\n" more).toList := by
  rw [joinWith_cons "\n" first h, String.toList_append, String.toList_append, List.append_assoc]
  rfl

theorem toList_firstLines_of_notMem {text : List Char} (h : '\n' ∉ text) (count : Nat) :
    (firstLines (count + 1) text).toList = text := by
  rw [firstLines, sourceLines, splitAtEach_of_notMem h, List.map_singleton, List.take_succ_cons,
    List.take_nil, joinWith, String.intercalate_singleton, String.toList_ofList]

theorem sourceLines_append_cons {line : List Char} (h : '\n' ∉ line) (rest : List Char) :
    sourceLines (line ++ '\n' :: rest) = String.ofList line :: sourceLines rest := by
  rw [sourceLines, splitAtEach_append_cons h]
  rfl

theorem toList_firstLines_one {line : List Char} (h : '\n' ∉ line) (rest : List Char) :
    (firstLines 1 (line ++ '\n' :: rest)).toList = line := by
  rw [firstLines, sourceLines_append_cons h, List.take_succ_cons, List.take_zero, joinWith,
    String.intercalate_singleton, String.toList_ofList]

theorem toList_firstLines_succ {line : List Char} (h : '\n' ∉ line) (count : Nat)
    (rest : List Char) : (firstLines (count + 2) (line ++ '\n' :: rest)).toList =
      line ++ '\n' :: (firstLines (count + 1) rest).toList := by
  have hne : (sourceLines rest).take (count + 1) ≠ [] := by
    rw [Ne, List.take_eq_nil_iff, not_or]
    exact ⟨Nat.succ_ne_zero count, sourceLines_ne_nil rest⟩
  rw [firstLines, sourceLines_append_cons h, List.take_succ_cons, toList_joinWith_cons _ hne,
    String.toList_ofList]
  rfl

/-- Behind the first lines of a text is its end, or the line feed that ends the last one of them. -/
theorem exists_eq_firstLines_append (count : Nat) (text : List Char) :
    ∃ tail, text = (firstLines (count + 1) text).toList ++ tail ∧
      (firstLines (count + 1) text).toList.count '\n' ≤ count ∧
      (tail = [] ∨ tail.head? = some '\n' ∧
        (firstLines (count + 1) text).toList.count '\n' = count) := by
  induction count generalizing text with
  | zero =>
    by_cases h : '\n' ∈ text
    · obtain ⟨line, rest, rfl, hline⟩ := List.eq_append_cons_of_mem h
      rw [toList_firstLines_one hline, List.count_eq_zero.2 hline]
      exact ⟨'\n' :: rest, rfl, Nat.le_refl 0, .inr ⟨rfl, rfl⟩⟩
    · rw [toList_firstLines_of_notMem h, List.count_eq_zero.2 h]
      exact ⟨[], (List.append_nil text).symm, Nat.le_refl 0, .inl rfl⟩
  | succ count ih =>
    by_cases h : '\n' ∈ text
    · obtain ⟨line, rest, rfl, hline⟩ := List.eq_append_cons_of_mem h
      obtain ⟨tail, htext, hle, htail⟩ := ih rest
      rw [toList_firstLines_succ hline, List.count_append, List.count_eq_zero.2 hline,
        List.count_cons_self, Nat.zero_add]
      refine ⟨tail, ?_, Nat.succ_le_succ hle, htail.imp_right (.imp_right (congrArg _))⟩
      rw [List.append_assoc, List.cons_append, ← htext]
    · rw [toList_firstLines_of_notMem h, List.count_eq_zero.2 h]
      exact ⟨[], (List.append_nil text).symm, Nat.zero_le _, .inl rfl⟩

end Text

/-! ## Lexemes at the end of a line -/

/-- No lexeme but a character literal has a line feed in it. -/
theorem IsLexeme.lineFeed_notMem {resolve : Resolver} {x rest : List Char} {kind : TokenKind}
    {value : Value} (h : IsLexeme resolve x rest kind value) (hnone : BeginsNoGap (x ++ rest))
    (hquoted : kind ≠ .quotedChar) (htested : kind ≠ .testedChar) : '\n' ∉ x := by
  cases h with
  | word hfirst hmore =>
    intro hmem
    rcases List.mem_cons.1 hmem with rfl | hmem
    · exact absurd hfirst (by decide)
    · exact absurd (hmore '\n' hmem) (by decide)
  | integer hdigits => exact fun hmem => absurd (hdigits '\n' hmem) (by decide)
  | quoted => exact absurd rfl hquoted
  | tested => exact absurd rfl htested
  | mark _ hlongest =>
    intro hmem
    have hspelled := notMem_spelling (by rw [hlongest.1]; rfl) '\n' hmem
    exact absurd hspelled.1 (by decide)
  | unknown =>
    intro hmem
    obtain rfl := List.mem_singleton.1 hmem
    exact absurd (hnone '\n' rfl).1 (by decide)

/-! ## Cutting a text off at the end of a line -/

namespace Segment

/-- Segments, and a last gap behind them, that are right in a text which begins at some place. -/
structure Cover (resolve : Resolver) (start : Text.Place) (segments : List Segment)
    (final : List Char) : Prop where
  isGap : IsGap final []
  fits : ∀ before s after, segments = before ++ s :: after →
    s.Fits resolve start (chars before) (chars after ++ final)

variable {resolve : Resolver} {start : Text.Place} {s : Segment} {segments : List Segment}
variable {final line tail : List Char}

@[simp] theorem chars_cons (s : Segment) (segments : List Segment) :
    chars (s :: segments) = s.gap ++ (s.lexeme ++ chars segments) := by
  simp [chars]

@[simp] theorem chars_append (segments more : List Segment) :
    chars (segments ++ more) = chars segments ++ chars more :=
  List.flatMap_append

/-- If no character literal has a line feed in it, no lexeme has one. -/
theorem Cover.lineFeed_notMem (h : Cover resolve start segments final)
    (hliterals : ∀ s ∈ segments, s.token.kind = .quotedChar ∨ s.token.kind = .testedChar →
      '\n' ∉ s.lexeme) : ∀ s ∈ segments, '\n' ∉ s.lexeme := by
  intro s hs
  by_cases hliteral : s.token.kind = .quotedChar ∨ s.token.kind = .testedChar
  · exact hliterals s hs hliteral
  · obtain ⟨hquoted, htested⟩ := not_or.1 hliteral
    obtain ⟨before, after, hsplit⟩ := List.append_of_mem hs
    obtain ⟨-, hnone, hlexeme, -⟩ := h.fits before s after hsplit
    exact hlexeme.lineFeed_notMem hnone hquoted htested

theorem Cover.of_cons (h : Cover resolve start (s :: segments) final) :
    Cover resolve (start.afterAll (s.gap ++ s.lexeme)) segments final := by
  refine ⟨h.isGap, fun before t after hsplit => ?_⟩
  obtain ⟨hgap, hnone, hlexeme, hplace⟩ := h.fits (s :: before) t after (by rw [hsplit]; rfl)
  refine ⟨hgap, hnone, hlexeme, ?_⟩
  rw [hplace, ← Text.Place.afterAll_append, chars_cons, List.append_assoc, List.append_assoc,
    List.append_assoc]

/-- The place of a segment is where its lexeme begins. -/
theorem Cover.line_eq (h : Cover resolve .origin segments final) {before after : List Segment}
    (hsplit : segments = before ++ s :: after) :
    s.token.place.line = 1 + (chars before ++ s.gap).count '\n' := by
  rw [(h.fits before s after hsplit).place_eq, Text.Place.afterAll_origin]
  rfl

/-- If a text is cut off at the end of a line, and no lexeme has a line feed in it, then its segments
up to there cover what is left, and the line feed is in the gap of the next one. -/
theorem Cover.exists_cut (h : Cover resolve start segments final)
    (hlexemes : ∀ s ∈ segments, '\n' ∉ s.lexeme) (htext : chars segments ++ final = line ++ tail)
    (htail : ∀ c ∈ tail.head?, c = '\n') :
    ∃ before after, segments = before ++ after ∧ chars before <+: line ∧
      Tokenized resolve start line (before.map Segment.token ++ [.endAt (start.afterAll line)]) ∧
      ∀ s more, after = s :: more → line ++ ['\n'] <+: chars before ++ s.gap := by
  induction segments generalizing start line with
  | nil =>
    have hgap : IsGap line [] := by
      cases tail with
      | nil =>
        rw [List.append_nil] at htext
        exact htext ▸ h.isGap
      | cons c tail =>
        obtain rfl := htail c rfl
        have hfinal : final = line ++ '\n' :: tail := htext
        exact IsGap.of_append (hfinal ▸ h.isGap)
    exact ⟨[], [], rfl, List.nil_prefix, .done hgap, by simp⟩
  | cons s segments ih =>
    obtain ⟨hgap, hnone, hlexeme, hplace⟩ := h.fits [] s segments rfl
    obtain ⟨hs, hsegments⟩ := List.forall_mem_cons.1 hlexemes
    simp only [chars_cons, List.append_assoc] at htext
    rcases List.append_eq_append_iff.1 htext with ⟨more, rfl, hrest⟩ | ⟨more, hsgap, rfl⟩
    · -- the end of the line is behind the gap, and so behind the lexeme
      have hbehind : ∃ more', more = s.lexeme ++ more' ∧ chars segments ++ final = more' ++ tail := by
        rcases List.append_eq_append_iff.1 hrest with ⟨more', rfl, hmore⟩ | ⟨more', hslexeme, rfl⟩
        · exact ⟨more', rfl, hmore⟩
        · cases more' with
          | nil => exact ⟨[], by simpa using hslexeme.symm, rfl⟩
          | cons c more' =>
            obtain rfl := htail c rfl
            exact absurd (hslexeme ▸ by simp) hs
      obtain ⟨more', rfl, hmore⟩ := hbehind
      obtain ⟨before, after, rfl, hbefore, htokens, hafter⟩ := ih h.of_cons hsegments hmore
      refine ⟨s :: before, after, rfl, ?_, ?_, ?_⟩
      · simpa [List.prefix_append_right_inj] using hbefore
      · have hagrees : AgreesUpToGap (chars (before ++ after) ++ final) more' :=
          ⟨more', tail, [], hmore, (List.append_nil more').symm, by simp⟩
        have hbegins : BeginsNoGap (s.lexeme ++ more') := by
          obtain ⟨c, rest, hc⟩ := List.exists_cons_of_ne_nil hlexeme.ne_nil
          rw [hc] at hnone ⊢
          exact hnone
        rw [← Text.Place.afterAll_append, List.append_assoc] at htokens
        exact .lexeme (hgap.of_beginsNoGap hnone hlexeme.append_ne_nil _) hbegins
          (hlexeme.of_agreesUpToGap hagrees) hplace htokens
      · intro t later hlater
        simpa [List.prefix_append_right_inj] using hafter t later hlater
    · -- the end of the line is in the gap
      cases more with
      | nil =>
        obtain ⟨c, rest, hc⟩ := List.exists_cons_of_ne_nil hlexeme.ne_nil
        rw [hc] at htail hs
        obtain rfl := htail c rfl
        exact absurd List.mem_cons_self hs
      | cons c more =>
        obtain rfl := htail c rfl
        rw [hsgap] at hgap
        refine ⟨[], s :: segments, rfl, List.nil_prefix, .done hgap.of_append, ?_⟩
        rintro t later hlater
        obtain ⟨rfl, -⟩ := List.cons.inj hlater
        rw [hsgap]
        exact ⟨more, by simp [chars]⟩

theorem prefix_chars_append_gap (before : List Segment) (s : Segment) (after : List Segment) :
    chars before ++ s.gap <+: chars (before ++ s :: after) := by
  simp [List.prefix_append_right_inj]

/-- The first lines of a text have the tokens that are placed on them, if no lexeme has a line feed
in it. -/
theorem Cover.exists_tokenized_firstLines {text : List Char}
    (h : Cover resolve .origin segments final) (htext : text = chars segments ++ final)
    (hlexemes : ∀ s ∈ segments, '\n' ∉ s.lexeme) (count : Nat) :
    ∃ before after last, segments = before ++ after ∧
      Tokenized resolve .origin (Text.firstLines count text).toList
        (before.map Segment.token ++ [.endAt last]) ∧
      (∀ s ∈ before, s.token.place.line ≤ count) ∧ ∀ s ∈ after, count < s.token.place.line := by
  cases count with
  | zero =>
    refine ⟨[], segments, _, rfl, .done (.nil []), by simp, fun s hs => ?_⟩
    obtain ⟨past, more, hsplit⟩ := List.append_of_mem hs
    have hline := h.line_eq hsplit
    omega
  | succ count =>
    obtain ⟨tail, hsplit, hle, htail⟩ := Text.exists_eq_firstLines_append count text
    generalize (Text.firstLines (count + 1) text).toList = line at hsplit hle htail ⊢
    have hhead : ∀ c ∈ tail.head?, c = '\n' := by
      rcases htail with rfl | ⟨hhead, -⟩
      · simp
      · rw [hhead]
        simp
    obtain ⟨before, after, rfl, hbefore, htokens, hafter⟩ :=
      h.exists_cut hlexemes (htext.symm.trans hsplit) hhead
    refine ⟨before, after, _, rfl, htokens, fun s hs => ?_, fun s hs => ?_⟩
    · obtain ⟨past, more, rfl⟩ := List.append_of_mem hs
      have hcount := ((prefix_chars_append_gap past s more).trans hbefore).sublist.count_le '\n'
      have hline := h.line_eq (List.append_assoc past (s :: more) after)
      omega
    · obtain ⟨past, more, rfl⟩ := List.append_of_mem hs
      have hline := h.line_eq (List.append_assoc before past (s :: more)).symm
      -- the gap before the first token behind the lines has the line feed that ends them
      have hprefix : line ++ ['\n'] <+: chars (before ++ past) ++ s.gap := by
        cases past with
        | nil =>
          rw [List.append_nil]
          exact hafter s more rfl
        | cons first past =>
          have hfirst := prefix_chars_append_gap before first past
          exact (hafter first (past ++ s :: more) rfl).trans
            (hfirst.trans (List.prefix_append _ _))
      have hcount := hprefix.sublist.count_le '\n'
      rw [List.count_append, List.count_singleton_self] at hcount
      rcases htail with rfl | ⟨-, heq⟩
      · -- nothing is behind the last line of a text
        have hall := hprefix.trans (prefix_chars_append_gap (before ++ past) s more)
        have hlength := (hall.trans (List.prefix_append _ final)).length_le
        rw [List.append_assoc before past, ← htext, hsplit, List.append_nil,
          List.length_append] at hlength
        exact absurd hlength (Nat.not_succ_le_self _)
      · omega

end Segment

end SetLang
