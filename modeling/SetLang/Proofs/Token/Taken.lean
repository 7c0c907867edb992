import SetLang.Proofs.Token.Boundary

/-!
# Texts behind the tokens that are taken

A cursor that has taken some tokens of a text stands behind the last of them. Main statement: where
the text behind it is replaced by one that agrees with it up to a gap, the tokens that were taken are
still the first ones, at their places, and those of the new text follow.
-/

namespace SetLang.Cursor

variable {resolve : Resolver} {c after : Cursor} {read : List Token}

/-- Some tokens of a text are taken one after the other, without the end mark, and lead to a cursor
behind them. -/
inductive Takes (resolve : Resolver) : Cursor → List Token → Cursor → Prop where
  | nil (c : Cursor) : Takes resolve c [] c
  | cons {c next after : Cursor} {t : Token} {ts : List Token} :
      c.token? resolve = some (.ok t, next) → Takes resolve next ts after →
      Takes resolve c (t :: ts) after

/-- The tokens of a text are those that are taken and those behind them. -/
theorem Takes.tokens_eq (h : c.Takes resolve read after) :
    (Scan.ofCursor resolve c).tokens.1 =
      (Scan.ofCursor resolve after).tokens.1.map (read ++ ·) := by
  induction h with
  | nil c => cases (Scan.ofCursor resolve c).tokens.1 <;> rfl
  | @cons c next after t ts htoken _ ih =>
    rw [Scan.tokens_of_ok htoken, ih]
    cases (Scan.ofCursor resolve after).tokens.1 <;> rfl

/-- A text without faults has the tokens that are taken up to its end, and an end mark. -/
theorem exists_takes_of_tokens {ts : List Token}
    (h : (Scan.ofCursor resolve c).tokens.1 = .ok ts) :
    ∃ read after, c.Takes resolve read after ∧ after.skipGap.ahead = [] ∧
      ts = read ++ [.endAt after.skipGap.place] := by
  induction c using induction_on_tokens resolve generalizing ts with
  | step c ih =>
    cases htoken : c.token? resolve with
    | none =>
      rw [Scan.tokens_of_none htoken] at h
      exact ⟨[], c, .nil c, token?_eq_none_iff.1 htoken, (Except.ok.inj h).symm⟩
    | some result =>
      obtain ⟨item, next⟩ := result
      cases item with
      | error fault =>
        rw [Scan.tokens_of_error htoken] at h
        cases h
      | ok t =>
        rw [Scan.tokens_of_ok htoken] at h
        obtain ⟨us, hus, rfl⟩ := exists_of_map_eq_ok h
        obtain ⟨read, after, hread, hend, rfl⟩ := ih _ htoken hus
        exact ⟨t :: read, after, .cons htoken hread, hend, rfl⟩

/-- A text is refused for a fault exactly if the fault stands behind tokens that are taken. -/
theorem tokens_eq_error_iff {fault : Fault} :
    (Scan.ofCursor resolve c).tokens.1 = .error fault ↔
      ∃ read after next, c.Takes resolve read after ∧
        after.token? resolve = some (.error fault, next) := by
  constructor
  · intro h
    induction c using induction_on_tokens resolve with
    | step c ih =>
      cases htoken : c.token? resolve with
      | none =>
        rw [Scan.tokens_of_none htoken] at h
        cases h
      | some result =>
        obtain ⟨item, next⟩ := result
        cases item with
        | error found =>
          rw [Scan.tokens_of_error htoken] at h
          obtain rfl := Except.error.inj h
          exact ⟨[], c, next, .nil c, htoken⟩
        | ok t =>
          rw [Scan.tokens_of_ok htoken] at h
          obtain ⟨read, after, behind, hread, hfault⟩ := ih _ htoken (eq_error_of_map h)
          exact ⟨t :: read, after, behind, .cons htoken hread, hfault⟩
  · rintro ⟨read, after, next, hread, hfault⟩
    rw [hread.tokens_eq, Scan.tokens_of_error hfault]
    rfl

/-- Tokens that are taken from the beginning of a text are the first ones of every text that begins
with the same characters and agrees with it behind them up to a gap. -/
theorem Takes.exists_past (h : c.Takes resolve read after) :
    ∃ past, c.ahead = past ++ after.ahead ∧ after.position = c.position + past.length ∧
      after.place = c.place.afterAll past ∧ read.length ≤ past.length ∧
      ∀ rest us, AgreesUpToGap after.ahead rest → Tokenized resolve after.place rest us →
        Tokenized resolve c.place (past ++ rest) (read ++ us) := by
  induction h with
  | nil c => exact ⟨[], rfl, rfl, rfl, Nat.le_refl 0, fun rest us _ h => h⟩
  | @cons c next after t ts htoken _ ih =>
    obtain ⟨past, hahead, hposition, hplace, hlength, hsplice⟩ := ih
    obtain ⟨g, x, hahead', hgap, hnone, hx, ht, hplace', hposition'⟩ :=
      exists_of_token?_eq_ok htoken
    have hpos : 0 < x.length := List.length_pos_iff.2 hx.ne_nil
    refine ⟨g ++ x ++ past, ?_, ?_, ?_, ?_, ?_⟩
    · rw [hahead', hahead]
      simp only [List.append_assoc]
    · rw [hposition, hposition', Nat.add_assoc, ← List.length_append]
    · rw [hplace, hplace', ← Text.Place.afterAll_append]
    · simp only [List.length_cons, List.length_append]
      omega
    · intro rest us hagrees hus
      have hbegins : BeginsNoGap (x ++ (past ++ rest)) := by
        obtain ⟨d, x, rfl⟩ := List.exists_cons_of_ne_nil hx.ne_nil
        exact hnone
      have hlexeme : IsLexeme resolve x (past ++ rest) t.kind t.value :=
        hx.of_agreesUpToGap (hahead ▸ hagrees.append past)
      have hrest := hsplice rest us hagrees hus
      rw [hplace'] at hrest
      rw [List.append_assoc, List.append_assoc, List.cons_append]
      exact .lexeme (hgap.of_beginsNoGap hnone hx.append_ne_nil _) hbegins hlexeme ht hrest

/-- A text that ends where a lexeme begins has the tokens that were taken before it. -/
theorem Takes.exists_past_skipGap (h : c.Takes resolve read after) :
    ∃ past, c.ahead = past ++ after.skipGap.ahead ∧
      after.skipGap.position = c.position + past.length ∧
      after.skipGap.place = c.place.afterAll past ∧ read.length ≤ past.length ∧
      (after.skipGap.ahead ≠ [] →
        Tokenized resolve c.place past (read ++ [.endAt (c.place.afterAll past)])) := by
  obtain ⟨past, hpast, hposition, hplace, hlength, hsplice⟩ := h.exists_past
  obtain ⟨g, hgap, hisGap, hnone, hskip⟩ := after.exists_skipGap_eq
  refine ⟨past ++ g, ?_, ?_, ?_, ?_, ?_⟩
  · rw [List.append_assoc, ← hgap, hpast]
  · rw [hskip, List.length_append, ← Nat.add_assoc, ← hposition]
    rfl
  · rw [hskip, place_pass_of_ahead hgap, hplace, ← Text.Place.afterAll_append]
  · rw [List.length_append]
    exact Nat.le_add_right_of_le hlength
  · intro hahead
    have hend : Tokenized resolve after.place g [.endAt (after.place.afterAll g)] :=
      .done (hisGap.of_beginsNoGap hnone hahead [])
    have hagrees : AgreesUpToGap after.ahead g :=
      ⟨g, after.skipGap.ahead, [], hgap, (List.append_nil g).symm, by simp⟩
    have hbefore := hsplice g _ hagrees hend
    rwa [hplace, ← Text.Place.afterAll_append] at hbefore

/-- A cursor that has taken tokens from the beginning of a text, and skipped the gap behind them,
stands between the characters before it and those from it on. -/
theorem Takes.of_start {text : List Char} (h : (start text).Takes resolve read after) :
    text.drop after.skipGap.position = after.skipGap.ahead ∧
      after.skipGap.place = .behind (text.take after.skipGap.position) ∧
      read.length ≤ after.skipGap.position ∧
      (after.skipGap.ahead ≠ [] → tokenize resolve (text.take after.skipGap.position) =
        .ok (read ++ [.endAt (.behind (text.take after.skipGap.position))])) := by
  obtain ⟨past, htext, hposition, hplace, hlength, hbefore⟩ := h.exists_past_skipGap
  have hsplit : text = past ++ after.skipGap.ahead := htext
  have hoffset : after.skipGap.position = past.length := by
    rw [hposition]
    exact Nat.zero_add _
  have hdrop : text.drop past.length = after.skipGap.ahead := by rw [hsplit, List.drop_left]
  have htake : text.take past.length = past := by rw [hsplit, List.take_left]
  rw [hoffset, hdrop, htake, ← Text.Place.afterAll_origin]
  exact ⟨rfl, hplace, hlength, fun hne => tokenize_eq_ok_iff.2 (hbefore hne)⟩

end SetLang.Cursor
