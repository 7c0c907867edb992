import SetLang.Proofs.Grammar.Viability
import Mathlib.Data.List.Basic
import Mathlib.Data.List.TakeWhile

/-!
# Parses of lists of tokens

A feed of a list hands out the list with an end mark behind it. A parse of a whole program reads it
token by token, so the machine of states decides how the parse ends: at the first end mark with the
tree of the statements before it, or at the first token that no sentence goes on with.
-/

namespace SetLang

open Phrase (words)

/-! ## The tokens that a feed hands out -/

namespace Token

/-- The tokens of a list as a feed hands them out, up to an end mark behind them. -/
def served (ts : List Token) : List Token :=
  if ts.getLast?.map kind = some .endOfText then ts else ts ++ [.endAt ⟨0, 0⟩]

/-- The tokens before the first end mark. -/
def beforeEnd (ts : List Token) : List Token :=
  ts.takeWhile fun t => t.kind ≠ .endOfText

theorem kind_ne_endOfText_of_mem_beforeEnd {ts : List Token} {t : Token} (h : t ∈ beforeEnd ts) :
    t.kind ≠ .endOfText := by
  simpa using List.mem_takeWhile_imp h

/-- What is handed out first is the tokens before the first end mark, and an end mark. -/
theorem exists_served_eq (ts : List Token) :
    ∃ e rest, served ts = beforeEnd ts ++ e :: rest ∧ e.kind = .endOfText := by
  have hsplit : beforeEnd ts ++ ts.dropWhile (fun t => t.kind ≠ .endOfText) = ts :=
    List.takeWhile_append_dropWhile
  cases hdrop : ts.dropWhile (fun t => t.kind ≠ .endOfText) with
  | nil =>
    rw [hdrop, List.append_nil] at hsplit
    refine ⟨.endAt ⟨0, 0⟩, [], ?_, rfl⟩
    rw [served, if_neg, hsplit]
    -- there is no end mark in the list, so one is put behind it
    intro hlast
    obtain ⟨last, hmem, hkind⟩ := Option.map_eq_some_iff.1 hlast
    rw [← hsplit] at hmem
    exact kind_ne_endOfText_of_mem_beforeEnd (List.mem_of_getLast? hmem) hkind
  | cons e rest =>
    rw [hdrop] at hsplit
    have he : e.kind = .endOfText := by
      have hhead := List.head?_dropWhile_not (fun t : Token => decide (t.kind ≠ .endOfText)) ts
      rw [hdrop] at hhead
      simpa using hhead
    unfold served
    split
    · exact ⟨e, rest, hsplit.symm, he⟩
    · exact ⟨e, rest ++ [.endAt ⟨0, 0⟩], by rw [← List.cons_append, ← List.append_assoc, hsplit], he⟩

theorem findIdx_served (ts : List Token) :
    (served ts).findIdx (fun t => t.kind = .endOfText) = (beforeEnd ts).length := by
  obtain ⟨e, rest, hserved, he⟩ := exists_served_eq ts
  have hbefore : (beforeEnd ts).findIdx (fun t => t.kind = .endOfText) = (beforeEnd ts).length :=
    List.findIdx_eq_length_of_false fun t ht => by
      simpa using kind_ne_endOfText_of_mem_beforeEnd ht
  rw [hserved, List.findIdx_append, hbefore, if_neg (Nat.lt_irrefl _), List.findIdx_cons]
  simp [he]

end Token

theorem Feed.exists_ofTokens_eq (ts : List Token) :
    ∃ xs, (ofTokens ts).items = xs.map .ok ∧ Token.served ts = xs ++ [(ofTokens ts).last] := by
  unfold ofTokens Token.served
  split
  · next last hlast =>
    split
    · next hkind =>
      refine ⟨ts.dropLast, rfl, ?_⟩
      rw [hlast, Option.map_some, hkind, if_pos rfl, List.dropLast_append_getLast? last hlast]
    · next hkind =>
      refine ⟨ts, rfl, ?_⟩
      rw [hlast, Option.map_some, if_neg (by simpa using hkind)]
  · next hlast =>
    refine ⟨[], rfl, ?_⟩
    rw [hlast, List.getLast?_eq_none_iff.1 hlast]
    rfl

/-- The first token of a list is taken when a parser starts, and what it has ahead is handed out as
the list says. -/
theorem Parser.exists_start_ofTokens (ts : List Token) :
    ∃ p xs ahead, start (.ofTokens ts) = .ok p ∧ p.calls = 1 ∧ p.feed.items = xs.map .ok ∧
      p.current :: (xs ++ [p.feed.last]) = Token.served ts ++ ahead := by
  obtain ⟨xs, hitems, hserved⟩ := Feed.exists_ofTokens_eq ts
  rw [start, Feed.next, hitems, hserved]
  cases xs with
  | nil => exact ⟨_, [], [(Feed.ofTokens ts).last], rfl, rfl, hitems, rfl⟩
  | cons t xs => exact ⟨_, xs, [], rfl, rfl, rfl, (List.append_nil _).symm⟩

/-! ## Runs -/

/-- A run ends at the first token that ends the parse. -/
theorem Parser.exists_runOver_eq {last : Token} (last_kind : last.kind = .endOfText) (calls : Nat)
    {s s' : ParseState} {xs read rest : List Token} {current t : Token} {v : Verdict}
    (hread : s.after? read = some s') (hmove : s'.move t = .verdict v)
    (hstream : current :: (xs ++ [last]) = read ++ t :: rest) :
    ∃ ys : List Token, runOver last last_kind s current calls (xs.map .ok) =
      conclude ⟨t, ⟨ys.map .ok, last, last_kind⟩, calls + read.length⟩ v := by
  -- what was read and what the feed has are taken off together
  induction xs generalizing s current read calls with
  | nil =>
    cases read with
    | nil =>
      obtain rfl : s = s' := Option.some.inj hread
      obtain rfl : current = t := (List.cons.inj hstream).1
      exact ⟨[], by rw [List.map_nil, runOver, hmove]; rfl⟩
    | cons u read =>
      obtain ⟨rfl, hlast⟩ := List.cons.inj hstream
      -- only the end mark is left, and the state judges it
      obtain ⟨rfl, rfl, rfl⟩ : read = [] ∧ t = last ∧ rest = [] := by
        cases read <;> simp_all
      rw [ParseState.after?] at hread
      split at hread
      · next next hnext =>
        obtain rfl : next = s' := Option.some.inj hread
        rw [ParseState.move, if_pos last_kind] at hmove
        obtain rfl := Move.verdict.inj hmove
        exact ⟨[], by rw [List.map_nil, runOver, hnext]; rfl⟩
      · cases hread
  | cons x xs ih =>
    cases read with
    | nil =>
      obtain rfl : s = s' := Option.some.inj hread
      obtain rfl : current = t := (List.cons.inj hstream).1
      exact ⟨x :: xs, by rw [List.map_cons, runOver, hmove]; rfl⟩
    | cons u read =>
      obtain ⟨rfl, hahead⟩ := List.cons.inj hstream
      rw [ParseState.after?] at hread
      split at hread
      · next next hnext =>
        obtain ⟨ys, hrun⟩ := ih (calls + 1) hread hahead
        refine ⟨ys, ?_⟩
        rw [List.map_cons, runOver, hnext]
        simp only [hrun, List.length_cons]
        rw [Nat.add_right_comm, Nat.add_assoc]
      · cases hread

theorem Parser.exists_conclude_finish (t last : Token) (last_kind : last.kind = .endOfText)
    (ys : List Token) (calls : Nat) (node : Node) :
    ∃ q, conclude ⟨t, ⟨ys.map .ok, last, last_kind⟩, calls⟩ (.finish node) = (.ok node, q) ∧
      q.calls = calls + 1 := by
  cases ys with
  | nil => exact ⟨_, rfl, rfl⟩
  | cons y ys => exact ⟨_, rfl, rfl⟩

/-- A grounded parse goes on over all of some tokens, or it rejects one of them. -/
theorem ParseState.Grounded.exists_after?_or_reject {s : ParseState} (hs : s.Grounded)
    (xs : List Token) (hxs : ∀ x ∈ xs, x.kind ≠ .endOfText) :
    (∃ s', s.after? xs = some s') ∨
      ∃ read t rest s' demand, xs = read ++ t :: rest ∧ s.after? read = some s' ∧
        s'.move t = .verdict (.reject demand) := by
  induction xs generalizing s with
  | nil => exact .inl ⟨s, rfl⟩
  | cons x xs ih =>
    obtain ⟨hx, hxs⟩ := List.forall_mem_cons.1 hxs
    have hmove := hs.onToken x
    rw [← move_eq_onToken hx] at hmove
    cases hnext : s.move x with
    | shift next =>
      rw [hnext] at hmove
      rcases ih hmove hxs with ⟨s', h⟩ | ⟨read, t, rest, s', demand, rfl, h, hreject⟩
      · exact .inl ⟨s', by rw [after?_cons hnext, h]⟩
      · exact .inr ⟨x :: read, t, rest, s', demand, rfl, by rw [after?_cons hnext, h], hreject⟩
    | verdict v =>
      rw [hnext] at hmove
      cases v with
      | reject demand => exact .inr ⟨[], x, xs, s, demand, rfl, rfl, hnext⟩
      -- before the end mark a grounded parse does not end in any other way
      | finish node => exact hmove.elim
      | stop node => exact hmove.elim

/-- How a parse of a list of tokens as a program ends: with the tree of the statements before the
first end mark, or at the first token that no sentence goes on with. -/
inductive Parser.Outcome (ts : List Token) : Except Fault Node × Parser → Prop where
  | accepted (ds : List Phrase) (q : Parser)
    (words_eq : words ds = (Token.beforeEnd ts).map Token.kind)
    (calls_eq : q.calls = (Token.beforeEnd ts).length + 2) :
    Outcome ts (.ok (Phrase.programTree ds (Token.beforeEnd ts)), q)
  | rejected (read : List Token) (t : Token) (rest : List Token) (demand : Demand) (q : Parser)
    (served_eq : Token.served ts = read ++ t :: rest)
    (length_le : read.length ≤ (Token.beforeEnd ts).length)
    (viable : IsViable (read.map Token.kind))
    (not_viable : ¬ IsViable ((read ++ [t]).map Token.kind))
    (current_eq : q.current = t)
    (calls_eq : q.calls = read.length + 1) :
    Outcome ts (.error (.rejection demand t), q)

/-- A token that a state rejects is where the parse of a program ends. -/
theorem Parser.outcome_of_reject {ts read rest xs ahead : List Token} {t : Token} {p : Parser}
    {s : ParseState} {demand : Demand} (hcalls : p.calls = 1) (hitems : p.feed.items = xs.map .ok)
    (hstream : p.current :: (xs ++ [p.feed.last]) = Token.served ts ++ ahead)
    (hserved : Token.served ts = read ++ t :: rest)
    (hlength : read.length ≤ (Token.beforeEnd ts).length)
    (hread : ParseState.initial.after? read = some s)
    (hmove : s.move t = .verdict (.reject demand)) : Outcome ts p.program := by
  rw [hserved, List.append_assoc, List.cons_append] at hstream
  obtain ⟨ys, hrun⟩ := exists_runOver_eq p.feed.last_kind p.calls hread hmove hstream
  have hprogram : p.program = (.error (.rejection demand t),
      ⟨t, ⟨ys.map .ok, p.feed.last, p.feed.last_kind⟩, 1 + read.length⟩) := by
    rw [program, run, hitems]
    rw [hcalls] at hrun ⊢
    exact hrun
  rw [hprogram]
  exact .rejected read t rest demand _ hserved hlength (ParseState.isViable_of_after? hread)
    (ParseState.not_isViable_of_reject hread hmove) rfl (Nat.add_comm 1 _)

/-- Every list of tokens has a parse, which ends in one of the two ways. -/
theorem Parser.exists_outcome (ts : List Token) :
    ∃ p, start (.ofTokens ts) = .ok p ∧ Outcome ts p.program := by
  obtain ⟨p, xs, ahead, hstart, hcalls, hitems, hstream⟩ := exists_start_ofTokens ts
  obtain ⟨e, rest, hserved, he⟩ := Token.exists_served_eq ts
  refine ⟨p, hstart, ?_⟩
  rcases ParseState.initial_grounded.exists_after?_or_reject
    (Token.beforeEnd ts) (fun _ => Token.kind_ne_endOfText_of_mem_beforeEnd) with
    ⟨s, hread⟩ | ⟨read, t, more, s, demand, hsplit, hread, hmove⟩
  · have hend : s.move e = .verdict s.onEnd := by rw [ParseState.move, if_pos he]
    rcases (ParseState.initial_grounded.after? hread).onEnd with ⟨done, rfl⟩ | ⟨demand, hreject⟩
    · -- the parse stands between two statements of the program, which the end mark finishes
      obtain ⟨ds, hwords, htree⟩ := ParseState.exists_words_of_after? hread
      rw [hserved, List.append_assoc, List.cons_append] at hstream
      obtain ⟨ys, hrun⟩ := exists_runOver_eq p.feed.last_kind p.calls hread hend hstream
      obtain ⟨q, hfinish, hq⟩ := exists_conclude_finish e p.feed.last p.feed.last_kind ys
        (p.calls + (Token.beforeEnd ts).length) (.programOf done)
      have hprogram : p.program = (.ok (.programOf done), q) := by
        rw [program, run, hitems]
        exact hrun.trans hfinish
      rw [hprogram, htree]
      exact .accepted ds q hwords (by omega)
    · -- the end mark itself is rejected
      rw [hreject] at hend
      exact outcome_of_reject hcalls hitems hstream hserved (Nat.le_refl _) hread hend
  · have hserved' : Token.served ts = read ++ t :: (more ++ e :: rest) := by
      rw [hserved, hsplit, List.append_assoc, List.cons_append]
    exact outcome_of_reject hcalls hitems hstream hserved' (by simp [hsplit]) hread hmove

/-- The parse of a list of tokens ends in one of the two ways. -/
theorem Parser.exists_outcome_parseFeed (ts : List Token) :
    ∃ q, Outcome ts (parseFeed (.ofTokens ts), q) := by
  obtain ⟨p, hstart, houtcome⟩ := exists_outcome ts
  refine ⟨p.program.2, ?_⟩
  rw [parseFeed, hstart]
  exact houtcome

/-- A parse is rejected only if what stands before the end mark is no list of statements. -/
theorem Parser.words_ne_of_rejected {ts read rest : List Token} {t : Token}
    (hserved : Token.served ts = read ++ t :: rest)
    (hlength : read.length ≤ (Token.beforeEnd ts).length)
    (hviable : ¬ IsViable ((read ++ [t]).map Token.kind)) (ds : List Phrase) :
    words ds ≠ (Token.beforeEnd ts).map Token.kind := by
  intro hwords
  obtain ⟨e, more, hsplit, he⟩ := Token.exists_served_eq ts
  have hsentence : IsViable ((Token.beforeEnd ts ++ [e]).map Token.kind) :=
    ⟨[], ds, by simp [hwords, he]⟩
  -- what was read with the rejected token is a beginning of that sentence
  have hread : read ++ [t] <+: Token.served ts := ⟨rest, by rw [hserved]; simp⟩
  have hend : Token.beforeEnd ts ++ [e] <+: Token.served ts := ⟨more, by rw [hsplit]; simp⟩
  obtain ⟨tail, htail⟩ := List.prefix_of_prefix_length_le hread hend (by simpa using hlength)
  rw [← htail, List.map_append] at hsentence
  exact hviable hsentence.of_append

end SetLang
