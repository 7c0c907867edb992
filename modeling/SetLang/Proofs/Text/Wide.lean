import SetLang.Text.Wide
import Mathlib.Data.List.Basic

/-!
# Wide texts and texts of characters

A text of characters is the same text as a wide one, and it is got back. Main statement: a wide text
is encoded exactly if no half stands in it, and then it is the wide text of what it is encoded as.
-/

namespace SetLang.WideText

variable {points : List CodePoint} {text : WideText} {s t : String} {cs : List Char}

/-- A half stands in a text. -/
def HasHalf (text : WideText) : Prop :=
  ∃ half, .lone half ∈ text.points

/-! ## Texts of characters -/

theorem char_injective : Function.Injective CodePoint.char :=
  fun _ _ => CodePoint.char.inj

/-- Text of characters is determined by its code points. -/
theorem ofString_injective : Function.Injective ofString := by
  intro s t h
  have hpoints : s.toList.map CodePoint.char = t.toList.map CodePoint.char := congrArg points h
  exact String.toList_inj.1 (List.map_injective_iff.2 char_injective hpoints)

@[simp]
theorem ofString_inj : ofString s = ofString t ↔ s = t :=
  ofString_injective.eq_iff

/-- Texts are joined as their code points are. -/
theorem ofString_append (s t : String) : ofString (s ++ t) = ofString s ++ ofString t := by
  unfold ofString
  rw [String.toList_append, List.map_append]
  rfl

/-- No text of characters has a lone half. -/
@[simp] theorem not_hasHalf_ofString (s : String) : ¬(ofString s).HasHalf := by
  rintro ⟨half, hmem⟩
  obtain ⟨c, -, hc⟩ := List.mem_map.1 hmem
  cases hc

/-- A half in a text behind a text of characters is one in the text. -/
@[simp] theorem hasHalf_append_iff : (ofString s ++ text).HasHalf ↔ text.HasHalf := by
  constructor
  · rintro ⟨half, hmem⟩
    rcases List.mem_append.1 hmem with hfront | htext
    · exact absurd ⟨half, hfront⟩ (not_hasHalf_ofString s)
    · exact ⟨half, htext⟩
  · rintro ⟨half, hmem⟩
    exact ⟨half, List.mem_append_right _ hmem⟩

/-- Text of characters is shown as it is. -/
@[simp]
theorem shown_ofString (s : String) : (ofString s).shown = s := by
  rw [shown, ofString, List.flatMap_map]
  exact (congrArg String.ofList (List.flatMap_singleton' s.toList)).trans String.ofList_toList

/-! ## Encoding -/

/-- Characters can be encoded, wherever they stand. -/
theorem encodeFrom_map_char (position : Nat) (cs : List Char) :
    encodeFrom position (cs.map .char) = .ok cs := by
  induction cs generalizing position with
  | nil => rfl
  | cons c cs ih => rw [List.map_cons, encodeFrom, ih, Except.map]

/-- What is encoded is characters one by one. -/
theorem eq_map_char_of_encodeFrom {position : Nat} (h : encodeFrom position points = .ok cs) :
    points = cs.map .char := by
  induction points generalizing position cs with
  | nil => rw [← Except.ok.inj h, List.map_nil]
  | cons point points ih =>
    cases point with
    | char c =>
      rw [encodeFrom] at h
      cases hrest : encodeFrom (position + 1) points with
      | error e =>
        rw [hrest] at h
        cases h
      | ok rest =>
        rw [hrest] at h
        rw [← Except.ok.inj h, List.map_cons, ih hrest]
    | lone half => cases h

/-- Text of characters can be encoded. -/
@[simp]
theorem encode_ofString (s : String) : (ofString s).encode = .ok s := by
  rw [encode, ofString, encodeFrom_map_char, Except.map, String.ofList_toList]

/-- What can be encoded is text of characters. -/
theorem encode_eq_ok_iff : text.encode = .ok s ↔ text = ofString s := by
  constructor
  · intro h
    unfold encode at h
    cases hchars : encodeFrom 0 text.points with
    | error e =>
      rw [hchars] at h
      cases h
    | ok cs =>
      rw [hchars] at h
      rw [← Except.ok.inj h, ofString, String.toList_ofList, ← eq_map_char_of_encodeFrom hchars]
  · rintro rfl
    exact encode_ofString s

/-- What is text of characters is the text of these characters. -/
theorem string?_eq_some_iff : text.string? = some s ↔ text = ofString s := by
  rw [← encode_eq_ok_iff, string?]
  cases text.encode with
  | error e => simp [Except.toOption]
  | ok t => simp [Except.toOption]

/-- A text without a half is a text of characters. -/
theorem exists_eq_ofString (h : ¬text.HasHalf) : ∃ s, text = ofString s := by
  have hchars (points : List CodePoint) (hnone : ∀ half, .lone half ∉ points) :
      ∃ cs : List Char, points = cs.map .char := by
    induction points with
    | nil => exact ⟨[], rfl⟩
    | cons point points ih =>
      obtain ⟨cs, rfl⟩ := ih fun half hmem => hnone half (List.mem_cons_of_mem _ hmem)
      cases point with
      | char c => exact ⟨c :: cs, rfl⟩
      | lone half => exact absurd List.mem_cons_self (hnone half)
  obtain ⟨cs, hpoints⟩ := hchars text.points fun half hmem => h ⟨half, hmem⟩
  refine ⟨String.ofList cs, ?_⟩
  rw [ofString, String.toList_ofList, ← hpoints]

/-- A text is refused for a half in it, and for nothing else. -/
theorem exists_encode_eq_error_iff : (∃ e, text.encode = .error e) ↔ text.HasHalf := by
  constructor
  · rintro ⟨e, he⟩
    by_contra hnone
    obtain ⟨s, rfl⟩ := exists_eq_ofString hnone
    rw [encode_ofString] at he
    cases he
  · intro hhalf
    cases hencode : text.encode with
    | error e => exact ⟨e, rfl⟩
    | ok s =>
      rw [encode_eq_ok_iff.1 hencode] at hhalf
      exact absurd hhalf (not_hasHalf_ofString s)

end SetLang.WideText
