import SetLang.Text.Lines

/-!
# Splitting and joining

A text is split at the separators in it, and texts are joined with a separator between them, one
after the other or in groups.
-/

namespace SetLang.Text

theorem splitAtEach_of_notMem {separator : Char} {text : List Char} (h : separator ∉ text) :
    splitAtEach separator text = [text] := by
  induction text with
  | nil => rfl
  | cons c text ih =>
    obtain ⟨hc, htext⟩ := not_or.1 (mt List.mem_cons.2 h)
    rw [splitAtEach, if_neg (Ne.symm hc), ih htext]

theorem splitAtEach_append_cons {separator : Char} {piece : List Char} (h : separator ∉ piece)
    (rest : List Char) :
    splitAtEach separator (piece ++ separator :: rest) = piece :: splitAtEach separator rest := by
  induction piece with
  | nil => rw [List.nil_append, splitAtEach, if_pos rfl]
  | cons c piece ih =>
    obtain ⟨hc, hpiece⟩ := not_or.1 (mt List.mem_cons.2 h)
    rw [List.cons_append, splitAtEach, if_neg (Ne.symm hc), ih hpiece]

theorem joinWith_cons (separator first : String) {more : List String} (h : more ≠ []) :
    joinWith separator (first :: more) = first ++ separator ++ joinWith separator more := by
  obtain ⟨second, more, rfl⟩ := List.exists_cons_of_ne_nil h
  exact String.intercalate_cons_cons

theorem joinWith_append (separator : String) {texts more : List String} (h : texts ≠ [])
    (h' : more ≠ []) : joinWith separator (texts ++ more) =
      joinWith separator texts ++ separator ++ joinWith separator more := by
  induction texts with
  | nil => exact absurd rfl h
  | cons first texts ih =>
    cases texts with
    | nil => exact joinWith_cons separator first h'
    | cons second texts =>
      have hne : second :: texts ≠ [] := List.cons_ne_nil _ _
      rw [List.cons_append, joinWith_cons separator first (List.append_ne_nil_of_left_ne_nil hne _),
        ih hne, joinWith_cons separator first hne]
      simp only [String.append_assoc]

/-- Texts that are joined in groups, and then the groups, are joined. -/
theorem joinWith_flatten (separator : String) {groups : List (List String)}
    (h : ∀ texts ∈ groups, texts ≠ []) :
    joinWith separator groups.flatten = joinWith separator (groups.map (joinWith separator)) := by
  induction groups with
  | nil => rfl
  | cons texts groups ih =>
    obtain ⟨htexts, hgroups⟩ := List.forall_mem_cons.1 h
    cases groups with
    | nil => simp [joinWith, String.intercalate_singleton]
    | cons more groups =>
      have hne : (more :: groups).flatten ≠ [] := by
        have hmore := hgroups more List.mem_cons_self
        simp [hmore]
      rw [List.flatten_cons, joinWith_append separator htexts hne, ih hgroups]
      exact (joinWith_cons separator _ (List.cons_ne_nil _ _)).symm

end SetLang.Text
