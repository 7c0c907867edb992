/-!
# Lists of characters and outcomes of sequences

What is checked of each character of a list, and a computation that may fail, taken apart into its
parts by its outcome.
-/

namespace SetLang

/-! ## Lists of characters -/

/-- Whether a property holds of all characters of a list is decided over the list, and not over all
characters there are. -/
theorem forall_mem_of_all {l : List Char} {p : Char → Prop} [DecidablePred p]
    (h : l.all (fun c => decide (p c)) = true) : ∀ c ∈ l, p c :=
  fun c hc => of_decide_eq_true (List.all_eq_true.1 h c hc)

/-! ## Outcomes -/

variable {ε α β : Type} {x : Except ε α} {f : α → Except ε β} {b : β} {e : ε}

/-- A sequence that succeeds has a first part that succeeds. -/
theorem exists_of_bind_eq_ok (h : (x >>= f) = .ok b) : ∃ a, x = .ok a ∧ f a = .ok b := by
  cases x with
  | error e => cases h
  | ok a => exact ⟨a, rfl, h⟩

/-- A sequence that fails has a part that fails. -/
theorem error_or_error_of_bind (h : (x >>= f) = .error e) :
    x = .error e ∨ ∃ a, x = .ok a ∧ f a = .error e := by
  cases x with
  | error e' => exact .inl (congrArg _ (Except.error.inj h))
  | ok a => exact .inr ⟨a, rfl, h⟩

theorem exists_of_map_eq_ok {g : α → β} (h : x.map g = .ok b) : ∃ a, x = .ok a ∧ g a = b := by
  cases x with
  | error e => cases h
  | ok a => exact ⟨a, rfl, Except.ok.inj h⟩

theorem eq_error_of_map {g : α → β} (h : x.map g = .error e) : x = .error e := by
  cases x with
  | error e' => exact congrArg _ (Except.error.inj h)
  | ok a => cases h

end SetLang
