import SetLang.Proofs.Token.Reading
import SetLang.Token.Feed

/-!
# Scans and single tokens

A scan is what a cursor hands out when it is asked for one token after the other. So a feed of a
text, which comes from a scan of all of it, answers every request as the cursor would, and it makes
no difference whether a text is cut into tokens beforehand or while they are asked for.
-/

namespace SetLang

/-! ## Scans, one token at a time -/

namespace Scan

variable {resolve : Resolver} {c : Cursor} {result : Except Fault Token × Cursor}

theorem fromCursor_of_none (h : c.token? resolve = none) (fuel : Nat) :
    fromCursor resolve fuel c = ⟨[], c.skipGap⟩ := by
  cases fuel with
  | zero => rfl
  | succ fuel => rw [fromCursor, h]

theorem fromCursor_of_some (h : c.token? resolve = some result) (fuel : Nat) :
    fromCursor resolve (fuel + 1) c =
      ⟨result :: (fromCursor resolve fuel result.2).results,
        (fromCursor resolve fuel result.2).final⟩ := by
  rw [fromCursor, h]

/-- As many characters as are ahead are fuel enough. -/
theorem fromCursor_eq_fromCursor {fuel fuel' : Nat} (h : c.ahead.length ≤ fuel)
    (h' : c.ahead.length ≤ fuel') : fromCursor resolve fuel c = fromCursor resolve fuel' c := by
  induction c using Cursor.induction_on_tokens resolve generalizing fuel fuel' with
  | step c ih =>
    cases htoken : c.token? resolve with
    | none => rw [fromCursor_of_none htoken, fromCursor_of_none htoken]
    | some result =>
      -- there is a character ahead, and less than that behind the token
      have hlt := Cursor.length_ahead_lt_of_token? htoken
      obtain ⟨fuel, rfl⟩ : ∃ k, fuel = k + 1 := ⟨fuel - 1, by omega⟩
      obtain ⟨fuel', rfl⟩ : ∃ k, fuel' = k + 1 := ⟨fuel' - 1, by omega⟩
      have hrest : fromCursor resolve fuel result.2 = fromCursor resolve fuel' result.2 :=
        ih result htoken (by omega) (by omega)
      rw [fromCursor_of_some htoken, fromCursor_of_some htoken, hrest]

theorem ofCursor_of_none (h : c.token? resolve = none) : ofCursor resolve c = ⟨[], c.skipGap⟩ :=
  fromCursor_of_none h _

/-- A scan is the next token, or the fault in its place, and the scan of what is behind it. -/
theorem ofCursor_of_some (h : c.token? resolve = some result) :
    ofCursor resolve c =
      ⟨result :: (ofCursor resolve result.2).results, (ofCursor resolve result.2).final⟩ := by
  have hlt := Cursor.length_ahead_lt_of_token? h
  have hrest : fromCursor resolve c.ahead.length result.2 = ofCursor resolve result.2 :=
    fromCursor_eq_fromCursor (Nat.le_of_lt hlt) (Nat.le_refl _)
  have hfuel : ofCursor resolve c = fromCursor resolve (c.ahead.length + 1) c :=
    fromCursor_eq_fromCursor (Nat.le_refl _) (Nat.le_succ _)
  rw [hfuel, fromCursor_of_some h, hrest]

/-- Tokens that are done already stand before those that are collected. -/
theorem collect_eq_map (final : Cursor) (done : List Token)
    (results : List (Except Fault Token × Cursor)) :
    (collect final done results).1 = (collect final [] results).1.map (done.reverse ++ ·) := by
  induction results generalizing done with
  | nil => simp [collect, Except.map]
  | cons first rest ih =>
    obtain ⟨item, after⟩ := first
    cases item with
    | error fault => rfl
    | ok t =>
      rw [collect, collect, ih (t :: done), ih [t]]
      cases (collect final [] rest).1 with
      | error fault => rfl
      | ok ts => simp [Except.map]

theorem tokens_of_none (h : c.token? resolve = none) :
    (ofCursor resolve c).tokens.1 = .ok [.endAt c.skipGap.place] := by
  rw [ofCursor_of_none h]
  rfl

theorem tokens_of_ok {t : Token} {after : Cursor} (h : c.token? resolve = some (.ok t, after)) :
    (ofCursor resolve c).tokens.1 = (ofCursor resolve after).tokens.1.map (t :: ·) := by
  rw [ofCursor_of_some h]
  exact collect_eq_map _ [t] _

theorem tokens_of_error {fault : Fault} {after : Cursor}
    (h : c.token? resolve = some (.error fault, after)) :
    (ofCursor resolve c).tokens.1 = .error fault := by
  rw [ofCursor_of_some h]
  rfl

end Scan

/-! ## Tokens that are asked for -/

namespace Cursor

variable {resolve : Resolver} {c after : Cursor}

/-- Some tokens are handed out one after the other, and lead to a cursor behind them. -/
inductive HandsOut (resolve : Resolver) : Cursor → List Token → Cursor → Prop where
  | nil (c : Cursor) : HandsOut resolve c [] c
  | cons {c next after : Cursor} {t : Token} {ts : List Token} :
      c.token resolve = (.ok t, next) → HandsOut resolve next ts after →
      HandsOut resolve c (t :: ts) after

theorem token_of_none (h : c.token? resolve = none) :
    c.token resolve = (.ok (.endAt c.skipGap.place), c.skipGap) := by
  rw [token, h, Option.getD_none]

theorem token_of_some {result : Except Fault Token × Cursor} (h : c.token? resolve = some result) :
    c.token resolve = result := by
  rw [token, h, Option.getD_some]

/-- Behind a gap there is no other gap. -/
theorem skipGap_skipGap (c : Cursor) : c.skipGap.skipGap = c.skipGap := by
  obtain ⟨g, -, -, hnone, -⟩ := c.exists_skipGap_eq
  exact skipGap_eq_self hnone

end Cursor

namespace Feed

variable {resolve : Resolver} {c : Cursor}

theorem ofCursor_of_none (h : c.token? resolve = none) :
    ofCursor resolve c = ⟨[], .endAt c.skipGap.place, rfl⟩ := by
  simp only [ofCursor, Scan.ofCursor_of_none h]
  rfl

theorem ofCursor_of_some {result : Except Fault Token × Cursor}
    (h : c.token? resolve = some result) :
    ofCursor resolve c =
      { ofCursor resolve result.2 with items := result.1 :: (ofCursor resolve result.2).items } := by
  simp only [ofCursor, Scan.ofCursor_of_some h]
  rfl

/-- A feed hands out what the cursor does, and goes on from the cursor behind it. -/
theorem next_ofCursor (resolve : Resolver) (c : Cursor) :
    (ofCursor resolve c).next =
      ((c.token resolve).1, ofCursor resolve (c.token resolve).2) := by
  cases htoken : c.token? resolve with
  | some result => rw [Cursor.token_of_some htoken, ofCursor_of_some htoken, next]
  | none =>
    -- at the end of the text the end mark is handed out, and the feed stays as it is
    have hend : c.skipGap.token? resolve = none := by
      rw [Cursor.token?_eq_none_iff, Cursor.skipGap_skipGap]
      exact Cursor.token?_eq_none_iff.1 htoken
    rw [Cursor.token_of_none htoken, ofCursor_of_none htoken, ofCursor_of_none hend, next,
      Cursor.skipGap_skipGap]

/-- Everything ahead of a cursor is tokens, or it is tokens and then a fault; and the feed has
them in this order. -/
theorem items_ofCursor (resolve : Resolver) (c : Cursor) :
    (∃ xs, (Scan.ofCursor resolve c).tokens.1 = .ok (xs ++ [(ofCursor resolve c).last]) ∧
      (ofCursor resolve c).items = xs.map .ok) ∨
    ∃ xs fault more after, (Scan.ofCursor resolve c).tokens.1 = .error fault ∧
      (ofCursor resolve c).items = xs.map .ok ++ .error fault :: more ∧
      c.HandsOut resolve xs after ∧ (after.token resolve).1 = .error fault := by
  induction c using Cursor.induction_on_tokens resolve with
  | step c ih =>
    cases htoken : c.token? resolve with
    | none =>
      rw [ofCursor_of_none htoken]
      exact .inl ⟨[], Scan.tokens_of_none htoken, rfl⟩
    | some result =>
      obtain ⟨item, next⟩ := result
      rw [ofCursor_of_some htoken]
      cases item with
      | error fault =>
        refine .inr ⟨[], fault, _, c, Scan.tokens_of_error htoken, rfl, .nil c, ?_⟩
        rw [Cursor.token_of_some htoken]
      | ok t =>
        rw [Scan.tokens_of_ok htoken]
        rcases ih _ htoken with ⟨xs, htokens, hitems⟩ |
          ⟨xs, fault, more, after, htokens, hitems, hxs, hfault⟩
        · refine .inl ⟨t :: xs, ?_, ?_⟩
          · rw [htokens]
            rfl
          · simp only [hitems, List.map_cons]
        · refine .inr ⟨t :: xs, fault, more, after, ?_, ?_, ?_, hfault⟩
          · rw [htokens]
            rfl
          · simp only [hitems, List.map_cons, List.cons_append]
          · exact .cons (Cursor.token_of_some htoken) hxs

end Feed

end SetLang
