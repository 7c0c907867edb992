import SetLang.Token.Lexer
import Mathlib.Data.List.TakeWhile

/-!
# Gaps of a text

What a gap is, apart from any way to find it: blanks and comments, of which each runs up to the end
of its line. The lexer skips the gap at the front of a text, so at every place there is one gap that
no other follows.
-/

namespace SetLang

/-! ## Runs of characters -/

/-- A run of characters is as long as what it is made of, if what follows is not of that class. -/
theorem takeWhile_append_of_head? {p : Char → Bool} {run rest : List Char}
    (hrun : ∀ c ∈ run, p c = true) (hrest : ∀ c ∈ rest.head?, p c = false) :
    (run ++ rest).takeWhile p = run := by
  rw [List.takeWhile_append_of_pos hrun]
  cases rest with
  | nil => simp
  | cons c rest =>
    have hc := hrest c rfl
    rw [List.takeWhile_cons_of_neg (by simp [hc]), List.append_nil]

theorem dropWhile_append_of_head? {p : Char → Bool} {run rest : List Char}
    (hrun : ∀ c ∈ run, p c = true) (hrest : ∀ c ∈ rest.head?, p c = false) :
    (run ++ rest).dropWhile p = rest := by
  rw [List.dropWhile_append_of_pos hrun]
  cases rest with
  | nil => simp
  | cons c rest =>
    have hc := hrest c rfl
    rw [List.dropWhile_cons_of_neg (by simp [hc])]

/-- What follows the longest run of a class does not begin with a character of the class. -/
theorem head?_dropWhile_eq_false {p : Char → Bool} {text : List Char} :
    ∀ c ∈ (text.dropWhile p).head?, p c = false := by
  intro c hc
  have hnot := List.head?_dropWhile_not p text
  rw [Option.mem_def.1 hc] at hnot
  simpa using hnot

/-! ## Gaps -/

/-- A gap before the rest of a text: blanks, and comments from a number sign up to a line feed or
the end of the text. -/
inductive IsGap : List Char → List Char → Prop where
  | nil (rest : List Char) : IsGap [] rest
  | blank {c : Char} {g rest : List Char} :
      Text.isBlank c = true → IsGap g rest → IsGap (c :: g) rest
  | comment {body g rest : List Char} :
      '\n' ∉ body → (∀ c ∈ (g ++ rest).head?, c = '\n') → IsGap g rest →
      IsGap ('#' :: (body ++ g)) rest

/-- Whether a text does not begin with a gap. -/
def BeginsNoGap (text : List Char) : Prop :=
  ∀ c ∈ text.head?, Text.isBlank c = false ∧ c ≠ '#'

theorem gap_cons_of_isBlank {c : Char} (hc : Text.isBlank c = true) (text : List Char) :
    gap (c :: text) = c :: gap text := by
  have hsign : (c == '#') = false := by
    rw [beq_eq_false_iff_ne]
    rintro rfl
    exact absurd hc (by decide)
  rw [gap, gapFrom, gapFrom.isGapStart, hc, hsign]
  rfl

/-- Inside a comment the gap goes on up to the line feed, and from there as any gap. -/
theorem gapFrom_true (text : List Char) :
    gapFrom true text = text.takeWhile (· ≠ '\n') ++ gap (text.dropWhile (· ≠ '\n')) := by
  induction text with
  | nil => rfl
  | cons c text ih =>
    by_cases hc : c = '\n'
    · subst hc
      have hblank : Text.isBlank '\n' = true := by decide
      rw [List.takeWhile_cons_of_neg (by simp), List.dropWhile_cons_of_neg (by simp),
        List.nil_append, gap_cons_of_isBlank hblank]
      rfl
    · have hne : (c != '\n') = true := by simpa using hc
      rw [List.takeWhile_cons_of_pos (by simpa using hc),
        List.dropWhile_cons_of_pos (by simpa using hc), List.cons_append, ← ih, gapFrom, hne]
      rfl

theorem gap_comment (text : List Char) :
    gap ('#' :: text) =
      '#' :: (text.takeWhile (· ≠ '\n') ++ gap (text.dropWhile (· ≠ '\n'))) := by
  rw [← gapFrom_true]
  rfl

theorem gap_eq_nil {text : List Char} (h : BeginsNoGap text) : gap text = [] := by
  cases text with
  | nil => rfl
  | cons c text =>
    obtain ⟨hblank, hsign⟩ := h c rfl
    have hstart : gapFrom.isGapStart c = false := by
      rw [gapFrom.isGapStart, hblank]
      simpa using hsign
    rw [gap, gapFrom, hstart]
    rfl

/-- The lexer skips a gap, and no gap follows. -/
theorem exists_isGap_gap (text : List Char) :
    ∃ rest, text = gap text ++ rest ∧ IsGap (gap text) rest ∧ BeginsNoGap rest := by
  -- the induction is on the length, since a comment is skipped at once
  induction hlength : text.length using Nat.strongRecOn generalizing text with
  | ind n ih =>
    subst hlength
    cases text with
    | nil => exact ⟨[], rfl, .nil [], by simp [BeginsNoGap]⟩
    | cons c text =>
      cases hblank : Text.isBlank c with
      | true =>
        obtain ⟨rest, htext, hgap, hrest⟩ := ih text.length (by simp) text rfl
        rw [gap_cons_of_isBlank hblank]
        exact ⟨rest, by rw [List.cons_append, ← htext], .blank hblank hgap, hrest⟩
      | false =>
        by_cases hsign : c = '#'
        · subst hsign
          have hle : (text.dropWhile (· ≠ '\n')).length ≤ text.length :=
            (List.dropWhile_sublist _).length_le
          obtain ⟨rest, htext, hgap, hrest⟩ :=
            ih (text.dropWhile (· ≠ '\n')).length (Nat.lt_succ_of_le hle) _ rfl
          have hbody : '\n' ∉ text.takeWhile (· ≠ '\n') := by
            intro hmem
            simpa using List.mem_takeWhile_imp hmem
          have hend : ∀ d ∈ (gap (text.dropWhile (· ≠ '\n')) ++ rest).head?, d = '\n' := by
            rw [← htext]
            intro d hd
            simpa using head?_dropWhile_eq_false d hd
          rw [gap_comment]
          refine ⟨rest, ?_, .comment hbody hend hgap, hrest⟩
          rw [List.cons_append, List.append_assoc, ← htext, List.takeWhile_append_dropWhile]
        · have hnone : BeginsNoGap (c :: text) := by
            rintro d hd
            obtain rfl := Option.some.inj hd
            exact ⟨hblank, hsign⟩
          rw [gap_eq_nil hnone]
          exact ⟨c :: text, rfl, .nil _, hnone⟩

/-- Where a gap stands and no other follows, the lexer skips it and nothing else. -/
theorem IsGap.gap_append {g rest : List Char} (h : IsGap g rest) (hrest : BeginsNoGap rest) :
    gap (g ++ rest) = g := by
  induction h with
  | nil rest => exact gap_eq_nil hrest
  | blank hc _ ih => rw [List.cons_append, gap_cons_of_isBlank hc, ih hrest]
  | @comment body g rest hbody hend _ ih =>
    have hinside : ∀ c ∈ body, decide (c ≠ '\n') = true := by
      intro c hc
      rw [decide_eq_true_iff]
      rintro rfl
      exact hbody hc
    have houtside : ∀ c ∈ (g ++ rest).head?, decide (c ≠ '\n') = false := by
      intro c hc
      simpa using hend c hc
    rw [List.cons_append, List.append_assoc, gap_comment,
      takeWhile_append_of_head? hinside houtside, dropWhile_append_of_head? hinside houtside,
      ih hrest]

end SetLang
