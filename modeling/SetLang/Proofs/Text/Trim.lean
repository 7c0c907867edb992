import SetLang.Proofs.Token.Gap
import Mathlib.Data.List.Basic

/-!
# Trimmed texts

Trimming takes off what is to be dropped at both ends of a text, and nothing of a text that neither
begins nor ends with it.
-/

namespace SetLang.Text

variable {p : Char → Bool} {text front behind : List Char}

/-- A text with nothing to drop at its ends. -/
structure IsTrimmed (p : Char → Bool) (text : List Char) : Prop where
  head : ∀ c ∈ text.head?, p c = false
  last : ∀ c ∈ text.getLast?, p c = false

theorem forall_mem_iff_any_eq_false {o : Option Char} :
    (∀ c ∈ o, p c = false) ↔ o.any p = false := by
  cases o <;> simp

instance (p : Char → Bool) (text : List Char) : Decidable (IsTrimmed p text) :=
  decidable_of_iff (text.head?.any p = false ∧ text.getLast?.any p = false)
    ⟨fun h => ⟨forall_mem_iff_any_eq_false.2 h.1, forall_mem_iff_any_eq_false.2 h.2⟩,
      fun h => ⟨forall_mem_iff_any_eq_false.1 h.head, forall_mem_iff_any_eq_false.1 h.last⟩⟩

/-- Trimming takes off what is to be dropped, up to a text with nothing to drop at its ends. -/
theorem trimWhile_append_append (hfront : ∀ c ∈ front, p c = true)
    (hbehind : ∀ c ∈ behind, p c = true) (h : IsTrimmed p text) (hne : text ≠ []) :
    trimWhile p (front ++ (text ++ behind)) = text := by
  have hhead : ∀ c ∈ (text ++ behind).head?, p c = false := by
    rw [List.head?_append_of_ne_nil _ hne]
    exact h.head
  have hlast : ∀ c ∈ text.reverse.head?, p c = false := by
    rw [List.head?_reverse]
    exact h.last
  have hreverse : ∀ c ∈ behind.reverse, p c = true :=
    fun c hc => hbehind c (List.mem_reverse.1 hc)
  rw [trimWhile, dropWhile_append_of_head? hfront hhead, List.reverse_append,
    dropWhile_append_of_head? hreverse hlast, List.reverse_reverse]

theorem IsTrimmed.trimWhile_eq (h : IsTrimmed p text) (hne : text ≠ []) :
    trimWhile p text = text := by
  have hnone : ∀ c ∈ ([] : List Char), p c = true := fun _ hc => absurd hc List.not_mem_nil
  have happend := trimWhile_append_append hnone hnone h hne
  rwa [List.append_nil] at happend

theorem IsTrimmed.cons_append {c : Char} (hc : p c = false) (more : List Char)
    (h : IsTrimmed p text) (hne : text ≠ []) : IsTrimmed p (c :: (more ++ text)) := by
  refine ⟨?_, ?_⟩
  · intro d hd
    obtain rfl := Option.some.inj hd
    exact hc
  · rw [← List.cons_append, List.getLast?_append_of_ne_nil _ hne]
    exact h.last

/-- A text is what trimming leaves of it between what is dropped at its ends. -/
theorem exists_eq_append_trimWhile (p : Char → Bool) (text : List Char) :
    ∃ front behind, text = front ++ (trimWhile p text ++ behind) ∧
      (∀ c ∈ front, p c = true) ∧ (∀ c ∈ behind, p c = true) ∧ IsTrimmed p (trimWhile p text) := by
  let middle := text.dropWhile p
  have hmiddle : middle = trimWhile p text ++ (middle.reverse.takeWhile p).reverse := by
    rw [trimWhile, ← List.reverse_append, List.takeWhile_append_dropWhile, List.reverse_reverse]
  refine ⟨text.takeWhile p, (middle.reverse.takeWhile p).reverse, ?_,
    fun c hc => List.mem_takeWhile_imp hc,
    fun c hc => List.mem_takeWhile_imp (List.mem_reverse.1 hc), fun c hc => ?_, fun c hc => ?_⟩
  · rw [← hmiddle, List.takeWhile_append_dropWhile]
  · have hne : trimWhile p text ≠ [] := by
      intro hnil
      rw [hnil] at hc
      cases hc
    have hhead : c ∈ middle.head? := by rwa [hmiddle, List.head?_append_of_ne_nil _ hne]
    exact head?_dropWhile_eq_false c hhead
  · rw [trimWhile, List.getLast?_reverse] at hc
    exact head?_dropWhile_eq_false c hc

/-! ## Texts between blanks or quotes -/

/-- A text is what stripping leaves of it between blanks. -/
theorem exists_toList_eq_append_strip (s : String) :
    ∃ front behind, s.toList = front ++ ((strip s).toList ++ behind) ∧
      (∀ c ∈ front, isBlank c = true) ∧ (∀ c ∈ behind, isBlank c = true) ∧
      IsTrimmed isBlank (strip s).toList := by
  rw [strip, String.toList_ofList]
  exact exists_eq_append_trimWhile isBlank s.toList

/-- What is left of a text is the part between the blanks at its ends. -/
theorem strip_eq {s part : String} (front behind : List Char)
    (hs : s.toList = front ++ (part.toList ++ behind))
    (hfront : ∀ c ∈ front, isBlank c = true) (hbehind : ∀ c ∈ behind, isBlank c = true)
    (h : IsTrimmed isBlank part.toList) (hne : part ≠ "") : strip s = part := by
  rw [strip, hs, trimWhile_append_append hfront hbehind h (mt String.toList_eq_nil_iff.1 hne),
    String.ofList_toList]

theorem strip_eq_self {s : String} (h : IsTrimmed isBlank s.toList) (hne : s ≠ "") :
    strip s = s := by
  rw [strip, h.trimWhile_eq (mt String.toList_eq_nil_iff.1 hne), String.ofList_toList]

theorem strip_strip (s : String) : strip (strip s) = strip s := by
  obtain ⟨-, -, -, -, -, htrimmed⟩ := exists_toList_eq_append_strip s
  by_cases hempty : strip s = ""
  · rw [hempty]
    rfl
  · exact strip_eq_self htrimmed hempty

theorem stripChar_eq_self {c : Char} {s : String} (h : IsTrimmed (· == c) s.toList)
    (hne : s ≠ "") : stripChar c s = s := by
  rw [stripChar, h.trimWhile_eq (mt String.toList_eq_nil_iff.1 hne), String.ofList_toList]

end SetLang.Text
