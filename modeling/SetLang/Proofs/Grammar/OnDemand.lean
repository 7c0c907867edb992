import SetLang.Proofs.Grammar.Acceptance
import SetLang.Proofs.Token.Payload

/-!
# Tokens on demand and tokens beforehand

A parse asks a cursor for one token when it starts and for one more whenever it takes a token. Main
statement: it makes no difference whether the text is cut into tokens while the parse asks for them
or before it starts. If the text has a lexical fault, the parse ends at the first token before the
fault that no sentence goes on with, and at the fault if there is no such token.
-/

namespace SetLang

/-! ## Parses that ask a cursor -/

/-- The result of a parse that ends at a token, given what is asked for if the token is taken. -/
def Verdict.result (v : Verdict) (current : Token) (next : Except Fault Token) :
    Except Fault Node :=
  match v with
  | .finish node => next.map fun _ => node
  | .stop node => .ok node
  | .reject demand => .error (.rejection demand current)

/-- A parse in a state with a current token asks the cursor behind it for the next one, as soon as
the state moves on, and ends with a result. -/
inductive Cursor.Parses (resolve : Resolver) :
    ParseState → Token → Cursor → Except Fault Node → Prop where
  | verdict {s : ParseState} {t : Token} {c : Cursor} {v : Verdict} :
      s.move t = .verdict v → Parses resolve s t c (v.result t (c.token resolve).1)
  | shift {s next : ParseState} {t u : Token} {c after : Cursor} {result : Except Fault Node} :
      s.move t = .shift next → c.token resolve = (.ok u, after) →
      Parses resolve next u after result → Parses resolve s t c result
  | fault {s next : ParseState} {t : Token} {c : Cursor} {fault : Fault} :
      s.move t = .shift next → (c.token resolve).1 = .error fault →
      Parses resolve s t c (.error fault)

/-- A text is parsed as a program with its tokens cut off on demand. -/
inductive ParsesOnDemand (resolve : Resolver) (text : List Char) : Except Fault Node → Prop where
  | started {t : Token} {c : Cursor} {result : Except Fault Node} :
      (Cursor.start text).token resolve = (.ok t, c) →
      c.Parses resolve .initial t result → ParsesOnDemand resolve text result
  | fault {fault : Fault} :
      ((Cursor.start text).token resolve).1 = .error fault →
      ParsesOnDemand resolve text (.error fault)

section

variable {resolve : Resolver} {text : List Char} {result result' : Except Fault Node}

/-- A parse has one result. -/
theorem Cursor.Parses.unique {s : ParseState} {t : Token} {c : Cursor}
    (h : c.Parses resolve s t result) (h' : c.Parses resolve s t result') : result = result' := by
  induction h with
  | verdict hmove =>
    cases h' with
    | verdict hmove' =>
      obtain rfl := Move.verdict.inj (hmove.symm.trans hmove')
      rfl
    | shift hmove' => cases hmove.symm.trans hmove'
    | fault hmove' => cases hmove.symm.trans hmove'
  | shift hmove htoken _ ih =>
    cases h' with
    | verdict hmove' => cases hmove.symm.trans hmove'
    | shift hmove' htoken' hrest =>
      obtain rfl := Move.shift.inj (hmove.symm.trans hmove')
      obtain ⟨hu, rfl⟩ := Prod.mk.inj (htoken.symm.trans htoken')
      obtain rfl := Except.ok.inj hu
      exact ih hrest
    | fault hmove' hfault =>
      rw [htoken] at hfault
      cases hfault
  | fault hmove hfault =>
    cases h' with
    | verdict hmove' => cases hmove.symm.trans hmove'
    | shift hmove' htoken' =>
      rw [htoken'] at hfault
      cases hfault
    | fault hmove' hfault' => rw [Except.error.inj (hfault.symm.trans hfault')]

theorem ParsesOnDemand.unique (h : ParsesOnDemand resolve text result)
    (h' : ParsesOnDemand resolve text result') : result = result' := by
  cases h with
  | started htoken hrun =>
    cases h' with
    | started htoken' hrun' =>
      obtain ⟨ht, rfl⟩ := Prod.mk.inj (htoken.symm.trans htoken')
      obtain rfl := Except.ok.inj ht
      exact hrun.unique hrun'
    | fault hfault =>
      rw [htoken] at hfault
      cases hfault
  | fault hfault =>
    cases h' with
    | started htoken' =>
      rw [htoken'] at hfault
      cases hfault
    | fault hfault' => rw [Except.error.inj (hfault.symm.trans hfault')]

end

/-! ## Parsers run as the cursor is asked -/

namespace Parser

variable {last current : Token} {last_kind : last.kind = .endOfText} {s next s' : ParseState}

theorem conclude_fst (p : Parser) (v : Verdict) :
    (p.conclude v).1 = v.result p.current p.feed.next.1 := by
  cases v with
  | finish node =>
    obtain ⟨⟨item, feed⟩, hnext⟩ : ∃ result, p.feed.next = result := ⟨_, rfl⟩
    rw [conclude, advance, Verdict.result, hnext]
    cases item <;> rfl
  | stop node => rfl
  | reject demand => rfl

theorem runOver_of_verdict {v : Verdict} (h : s.move current = .verdict v) (calls : Nat)
    (items : List (Except Fault Token)) :
    runOver last last_kind s current calls items =
      conclude ⟨current, ⟨items, last, last_kind⟩, calls⟩ v := by
  cases items <;> rw [runOver, h]

theorem run_of_verdict {p : Parser} {v : Verdict} (h : s.move p.current = .verdict v) :
    p.run s = p.conclude v :=
  runOver_of_verdict h _ _

/-- A parser that moves on goes on with the token that the feed hands out. -/
theorem run_of_shift_ok {p : Parser} {t : Token} {feed : Feed}
    (hmove : s.move p.current = .shift next) (hnext : p.feed.next = (.ok t, feed)) :
    p.run s = run ⟨t, feed, p.calls + 1⟩ next := by
  obtain ⟨current, ⟨items, last, last_kind⟩, calls⟩ := p
  cases items with
  | nil =>
    -- a feed that is used up hands out its end mark, which always ends the parse
    obtain ⟨ht, rfl⟩ := Prod.mk.inj hnext
    obtain rfl := Except.ok.inj ht
    have hend : next.move last = .verdict next.onEnd := by rw [ParseState.move, if_pos last_kind]
    rw [run, runOver, hmove]
    exact (run_of_verdict (p := ⟨last, ⟨[], last, last_kind⟩, calls + 1⟩) hend).symm
  | cons item rest =>
    obtain ⟨rfl, rfl⟩ := Prod.mk.inj hnext
    rw [run, runOver, hmove]
    rfl

theorem run_of_shift_error {p : Parser} {fault : Fault}
    (hmove : s.move p.current = .shift next) (hnext : p.feed.next.1 = .error fault) :
    (p.run s).1 = .error fault := by
  obtain ⟨current, ⟨items, last, last_kind⟩, calls⟩ := p
  cases items with
  | nil => cases hnext
  | cons item rest =>
    obtain rfl : item = .error fault := hnext
    rw [run, runOver, hmove]

/-- A parser over the feed of a cursor does what a parse that asks the cursor does. -/
theorem parses_run (resolve : Resolver) (c : Cursor) (s : ParseState) (t : Token) (calls : Nat) :
    c.Parses resolve s t (run ⟨t, .ofCursor resolve c, calls⟩ s).1 := by
  -- along the tokens of the cursor; the end mark behind them ends every parse
  induction c using Cursor.induction_on_tokens resolve generalizing s t calls with
  | step c ih =>
    have hfeed := Feed.next_ofCursor resolve c
    cases hmove : s.move t with
    | verdict v =>
      rw [run_of_verdict hmove, conclude_fst, hfeed]
      exact .verdict hmove
    | shift next =>
      obtain ⟨⟨item, after⟩, htoken⟩ : ∃ result, c.token resolve = result := ⟨_, rfl⟩
      rw [htoken] at hfeed
      cases item with
      | error fault =>
        rw [run_of_shift_error hmove (by rw [hfeed])]
        exact .fault hmove (by rw [htoken])
      | ok u =>
        rw [run_of_shift_ok hmove hfeed]
        refine .shift hmove htoken ?_
        cases hsome : c.token? resolve with
        | some result =>
          obtain rfl : result = (.ok u, after) := (Cursor.token_of_some hsome).symm.trans htoken
          exact ih _ hsome _ _ _
        | none =>
          rw [Cursor.token_of_none hsome] at htoken
          obtain ⟨hu, rfl⟩ := Prod.mk.inj htoken
          obtain rfl := Except.ok.inj hu
          have hend : next.move (.endAt c.skipGap.place) = .verdict next.onEnd := if_pos rfl
          rw [run_of_verdict hend, conclude_fst, Feed.next_ofCursor]
          exact .verdict hend

end Parser

theorem parsesOnDemand_parseText (resolve : Resolver) (text : List Char) :
    ParsesOnDemand resolve text (parseText resolve text) := by
  have hfeed := Feed.next_ofCursor resolve (.start text)
  obtain ⟨⟨item, after⟩, htoken⟩ : ∃ result, (Cursor.start text).token resolve = result :=
    ⟨_, rfl⟩
  rw [htoken] at hfeed
  rw [parseText, parseFeed, Parser.start, Feed.ofText, hfeed]
  cases item with
  | error fault => exact .fault (by rw [htoken])
  | ok t => exact .started htoken (Parser.parses_run resolve after .initial t 1)

/-- The parse of a text is the parse that cuts its tokens off on demand. -/
theorem parseText_eq_iff {resolve : Resolver} {text : List Char} {result : Except Fault Node} :
    parseText resolve text = result ↔ ParsesOnDemand resolve text result := by
  constructor
  · rintro rfl
    exact parsesOnDemand_parseText resolve text
  · exact (parsesOnDemand_parseText resolve text).unique

/-! ## Tokens beforehand -/

/-- The feed of a text without lexical faults is that of the list of its tokens. -/
theorem Feed.ofText_eq_ofTokens {resolve : Resolver} {text : List Char} {ts : List Token}
    (h : tokenize resolve text = .ok ts) : ofText resolve text = ofTokens ts := by
  rcases items_ofCursor resolve (.start text) with ⟨xs, htokens, hitems⟩ |
    ⟨xs, fault, more, after, htokens, -⟩
  · obtain rfl := Except.ok.inj (h.symm.trans htokens)
    have hlast := (ofCursor resolve (.start text)).last_kind
    have hlist : ∀ last : Token, (hk : last.kind = .endOfText) →
        ofTokens (xs ++ [last]) = ⟨xs.map .ok, last, hk⟩ := by
      intro last hk
      simp [ofTokens, hk]
    rw [hlist _ hlast, ← hitems]
    rfl
  · cases h.symm.trans htokens

/-- A text has some tokens and then a fault, in the order in which a cursor comes to them. -/
def BreaksOff (resolve : Resolver) (text : List Char) (read : List Token) (fault : Fault) : Prop :=
  ∃ after, (Cursor.start text).HandsOut resolve read after ∧ (after.token resolve).1 = .error fault

namespace Cursor

variable {resolve : Resolver} {c after : Cursor} {read : List Token} {fault : Fault}

/-- What is handed out before a fault is what the feed has before it. -/
theorem HandsOut.items_of_error (h : c.HandsOut resolve read after)
    (hfault : (after.token resolve).1 = .error fault) :
    (Scan.ofCursor resolve c).tokens.1 = .error fault ∧
      ∃ more, (Feed.ofCursor resolve c).items = read.map .ok ++ .error fault :: more := by
  induction h with
  | nil c =>
    cases htoken : c.token? resolve with
    | none =>
      rw [token_of_none htoken] at hfault
      cases hfault
    | some result =>
      rw [token_of_some htoken] at hfault
      obtain ⟨item, next⟩ := result
      obtain rfl : item = .error fault := hfault
      exact ⟨Scan.tokens_of_error htoken, _, by rw [Feed.ofCursor_of_some htoken]; rfl⟩
  | @cons c next after t ts htoken _ ih =>
    obtain ⟨htokens, more, hitems⟩ := ih hfault
    cases hsome : c.token? resolve with
    | none =>
      -- no fault comes behind the end of the text
      rw [token_of_none hsome] at htoken
      obtain ⟨-, rfl⟩ := Prod.mk.inj htoken
      have hend : c.skipGap.token? resolve = none := by
        rw [token?_eq_none_iff, skipGap_skipGap]
        exact token?_eq_none_iff.1 hsome
      rw [Scan.tokens_of_none hend] at htokens
      cases htokens
    | some result =>
      obtain rfl : result = (.ok t, next) := (token_of_some hsome).symm.trans htoken
      refine ⟨by rw [Scan.tokens_of_ok hsome, htokens]; rfl, more, ?_⟩
      rw [Feed.ofCursor_of_some hsome, hitems]
      rfl

/-- The fault of a cursor is a lexical one. -/
theorem exists_lexical_of_token (h : (c.token resolve).1 = .error fault) :
    ∃ cause place, fault = .lexical cause place := by
  cases htoken : c.token? resolve with
  | none =>
    rw [token_of_none htoken] at h
    cases h
  | some result =>
    rw [token_of_some htoken] at h
    obtain ⟨item, next⟩ := result
    obtain rfl : item = .error fault := h
    obtain ⟨first, text, hahead, hlexeme⟩ := exists_of_token?_eq_some htoken
    obtain ⟨cause, rfl⟩ := exists_lexical_of_lexeme hahead hlexeme
    exact ⟨cause, _, rfl⟩

end Cursor

/-- The tokens of a text are refused for the fault at which the text breaks off. -/
theorem tokenize_eq_error_iff {resolve : Resolver} {text : List Char} {fault : Fault} :
    tokenize resolve text = .error fault ↔ ∃ read, BreaksOff resolve text read fault := by
  constructor
  · intro h
    rcases Feed.items_ofCursor resolve (.start text) with ⟨xs, htokens, -⟩ |
      ⟨xs, fault', more, after, htokens, -, hread, hfault⟩
    · cases h.symm.trans htokens
    · obtain rfl := Except.error.inj (h.symm.trans htokens)
      exact ⟨xs, after, hread, hfault⟩
  · rintro ⟨read, after, hread, hfault⟩
    exact (hread.items_of_error hfault).1

/-! ## Parses that end before the text does -/

theorem ParseState.exists_shift_of_after?_cons {s s' : ParseState} {t : Token} {rest : List Token}
    (h : s.after? (t :: rest) = some s') :
    ∃ next, s.move t = .shift next ∧ next.after? rest = some s' := by
  rw [after?] at h
  split at h
  · next next hmove => exact ⟨next, hmove, h⟩
  · cases h

namespace Parser

variable {last current t : Token} {last_kind : last.kind = .endOfText} {s s' : ParseState}
  {read : List Token} {rest : List (Except Fault Token)} {fault : Fault} {feed : Feed}

/-- A parser moves over the tokens that its state moves over. -/
theorem runOver_of_after? (h : s.after? (current :: read) = some s') (calls : Nat) :
    runOver last last_kind s current calls (read.map .ok ++ .ok t :: rest) =
      runOver last last_kind s' t (calls + read.length + 1) rest := by
  induction read generalizing s current calls with
  | nil =>
    obtain ⟨next, hmove, hnext⟩ := ParseState.exists_shift_of_after?_cons h
    obtain rfl : next = s' := Option.some.inj hnext
    rw [List.map_nil, List.nil_append, runOver, hmove]
    rfl
  | cons u read ih =>
    obtain ⟨next, hmove, hnext⟩ := ParseState.exists_shift_of_after?_cons h
    rw [List.map_cons, List.cons_append, runOver, hmove, List.length_cons, Nat.add_comm read.length,
      ← Nat.add_assoc]
    exact ih hnext (calls + 1)

/-- Where its state moves over all tokens before a fault, a parser ends at the fault. -/
theorem runOver_of_after?_error (h : s.after? (current :: read) = some s') (calls : Nat) :
    (runOver last last_kind s current calls (read.map .ok ++ .error fault :: rest)).1 =
      .error fault := by
  induction read generalizing s current calls with
  | nil =>
    obtain ⟨next, hmove, -⟩ := ParseState.exists_shift_of_after?_cons h
    rw [List.map_nil, List.nil_append, runOver, hmove]
  | cons u read ih =>
    obtain ⟨next, hmove, hnext⟩ := ParseState.exists_shift_of_after?_cons h
    rw [List.map_cons, List.cons_append, runOver, hmove]
    exact ih hnext (calls + 1)

end Parser

section

variable {t : Token} {s : ParseState} {read : List Token} {rest : List (Except Fault Token)}
  {fault : Fault} {demand : Demand} {feed : Feed}

theorem parseFeed_of_cons (h : feed.items = .ok t :: rest) :
    parseFeed feed = (Parser.runOver feed.last feed.last_kind .initial t 1 rest).1 := by
  rw [parseFeed, Parser.start, Feed.next, h]
  rfl

/-- A feed is parsed no further than the first rejected token. -/
theorem parseFeed_of_reject (hitems : feed.items = read.map .ok ++ .ok t :: rest)
    (hread : ParseState.initial.after? read = some s)
    (hmove : s.move t = .verdict (.reject demand)) :
    parseFeed feed = .error (.rejection demand t) := by
  cases read with
  | nil =>
    obtain rfl : ParseState.initial = s := Option.some.inj hread
    rw [parseFeed_of_cons hitems, Parser.runOver_of_verdict hmove]
    rfl
  | cons u read =>
    rw [List.map_cons, List.cons_append] at hitems
    rw [parseFeed_of_cons hitems, Parser.runOver_of_after? hread, Parser.runOver_of_verdict hmove]
    rfl

/-- A feed is parsed no further than its first fault. -/
theorem parseFeed_of_fault (hitems : feed.items = read.map .ok ++ .error fault :: rest)
    (hread : ParseState.initial.after? read = some s) : parseFeed feed = .error fault := by
  cases read with
  | nil =>
    rw [parseFeed, Parser.start, Feed.next, hitems]
    rfl
  | cons u read =>
    rw [List.map_cons, List.cons_append] at hitems
    rw [parseFeed_of_cons hitems]
    exact Parser.runOver_of_after?_error hread 1

end

/-! ## On demand or beforehand -/

/-- A rejected token is the first one that no sentence goes on with. -/
theorem ParseState.isLeast_of_reject {s : ParseState} {ts before rest : List Token} {t : Token}
    {demand : Demand} (hsplit : ts = before ++ t :: rest)
    (hread : ParseState.initial.after? before = some s)
    (hmove : s.move t = .verdict (.reject demand)) :
    IsLeast {k | ¬ IsViable ((ts.take k).map Token.kind)} (before.length + 1) := by
  constructor
  · have htake : ts.take (before.length + 1) = before ++ [t] := by
      rw [hsplit, List.take_length_add_append]
      rfl
    rw [Set.mem_ofPred_eq, htake]
    exact not_isViable_of_reject hread hmove
  · intro k hk
    by_contra hlt
    have htake : ts.take k = before.take k := by
      rw [hsplit, List.take_append_of_le_length (by omega)]
    rw [Set.mem_ofPred_eq, htake, List.map_take] at hk
    exact hk ((isViable_of_after? hread).take k)

/-- An integer that stands in a text fits decimal text. -/
theorem IsLexeme.fits {resolve : Resolver} {x rest : List Char} {kind : TokenKind} {value : Value}
    (h : IsLexeme resolve x rest kind value) : value.Fits := by
  cases value with
  | absent => trivial
  | text s => trivial
  | int n => exact h.fitsDecimal.2

namespace BreaksOff

variable {resolve : Resolver} {text : List Char} {read : List Token} {fault : Fault}

theorem exists_items_eq (h : BreaksOff resolve text read fault) :
    ∃ more, (Feed.ofText resolve text).items = read.map .ok ++ .error fault :: more := by
  obtain ⟨after, hread, hfault⟩ := h
  exact (hread.items_of_error hfault).2

theorem exists_isLexeme (h : BreaksOff resolve text read fault) {t : Token} (ht : t ∈ read) :
    ∃ x rest, IsLexeme resolve x rest t.kind t.value := by
  obtain ⟨more, hitems⟩ := h.exists_items_eq
  refine Feed.exists_isLexeme_of_mem_ofCursor (c := .start text) (t := t) ?_
  show .ok t ∈ (Feed.ofText resolve text).items
  rw [hitems]
  exact List.mem_append_left _ (List.mem_map_of_mem ht)

/-- Before a fault, tokens that a sentence begins with are parsed up to the fault. -/
theorem parseText_of_isViable (hresolve : resolve.Canonical)
    (h : BreaksOff resolve text read fault) (hviable : IsViable (read.map Token.kind)) :
    parseText resolve text = .error fault := by
  obtain ⟨more, hitems⟩ := h.exists_items_eq
  rcases ParseState.initial_grounded.exists_after?_or_reject read fun t ht => by
    obtain ⟨x, rest, hx⟩ := h.exists_isLexeme ht
    exact hx.kind_ne_endOfText hresolve with
    ⟨s, hread⟩ | ⟨before, t, rest, s, demand, rfl, hread, hmove⟩
  · exact parseFeed_of_fault hitems hread
  · -- a rejected token would stand where a sentence goes on
    rw [List.append_cons, List.map_append] at hviable
    exact absurd hviable.of_append (ParseState.not_isViable_of_reject hread hmove)

/-- Before a fault, tokens that no sentence begins with are parsed up to the first one that no
sentence goes on with, as if nothing followed them. -/
theorem parseText_of_not_isViable (hresolve : resolve.Canonical)
    (h : BreaksOff resolve text read fault) (hviable : ¬ IsViable (read.map Token.kind)) :
    ∃ n t demand, IsLeast {k | ¬ IsViable ((read.take k).map Token.kind)} (n + 1) ∧
      read[n]? = some t ∧ parseText resolve text = .error (.rejected demand t) ∧
      parseFeed (.ofTokens read) = .error (.rejected demand t) := by
  have hkind : ∀ t ∈ read, t.kind ≠ .endOfText := fun t ht => by
    obtain ⟨x, rest, hx⟩ := h.exists_isLexeme ht
    exact hx.kind_ne_endOfText hresolve
  rcases ParseState.initial_grounded.exists_after?_or_reject read hkind with
    ⟨s, hread⟩ | ⟨before, t, rest, s, demand, hsplit, hread, hmove⟩
  · exact absurd (ParseState.isViable_of_after? hread) hviable
  · have hrejection : Fault.rejection demand t = .rejected demand t := by
      obtain ⟨x, behind, hx⟩ := h.exists_isLexeme (t := t) (by simp [hsplit])
      exact Fault.rejection_eq hx.fits demand
    obtain ⟨more, hitems⟩ := h.exists_items_eq
    rw [hsplit, List.map_append, List.map_cons, List.append_assoc, List.cons_append] at hitems
    refine ⟨before.length, t, demand, ParseState.isLeast_of_reject hsplit hread hmove,
      by simp [hsplit], ?_, ?_⟩
    · rw [← hrejection]
      exact parseFeed_of_reject hitems hread hmove
    · -- the tokens themselves have no end mark among them, so one is put behind them
      obtain ⟨xs, hlist, hserved⟩ := Feed.exists_ofTokens_eq read
      have hxs : xs = read := by
        have hend : read.getLast?.map Token.kind ≠ some .endOfText := by
          intro hlast
          obtain ⟨u, hu, hukind⟩ := Option.map_eq_some_iff.1 hlast
          exact hkind u (List.mem_of_getLast? hu) hukind
        rw [Token.served, if_neg hend] at hserved
        exact (List.append_inj_left' hserved rfl).symm
      rw [hxs, hsplit, List.map_append, List.map_cons, ← hsplit] at hlist
      rw [← hrejection]
      exact parseFeed_of_reject hlist hread hmove

end BreaksOff

/-- Tokens on demand and tokens beforehand come to the same: a text without lexical faults is parsed
as the list of its tokens is, and a text that breaks off at a fault has the parse of the tokens
before it if they are rejected, and that very fault if they are not. -/
theorem parseText_agrees_with_tokenize (table : Option AliasTable)
    (htable : ∀ t ∈ table, t.Reachable) (text : List Char) :
    let resolve := Resolver.ofTable? table
    (∀ result, parseText resolve text = result ↔ ParsesOnDemand resolve text result) ∧
    (∀ ts, tokenize resolve text = .ok ts →
      parseText resolve text = parseFeed (.ofTokens ts)) ∧
    (∀ fault, tokenize resolve text = .error fault ↔ ∃ read, BreaksOff resolve text read fault) ∧
    ∀ read fault, BreaksOff resolve text read fault →
      (∃ cause place, fault = .lexical cause place) ∧
      (IsViable (read.map Token.kind) → parseText resolve text = .error fault) ∧
      (¬ IsViable (read.map Token.kind) →
        ∃ n t demand, IsLeast {k | ¬ IsViable ((read.take k).map Token.kind)} (n + 1) ∧
          read[n]? = some t ∧ parseText resolve text = .error (.rejected demand t) ∧
          parseFeed (.ofTokens read) = .error (.rejected demand t)) := by
  intro resolve
  have hresolve : resolve.Canonical := Resolver.canonical_ofTable? htable
  refine ⟨fun result => parseText_eq_iff, ?_, fun fault => tokenize_eq_error_iff, ?_⟩
  · intro ts h
    rw [parseText, Feed.ofText_eq_ofTokens h]
  · intro read fault h
    obtain ⟨after, -, hfault⟩ := id h
    exact ⟨Cursor.exists_lexical_of_token hfault, h.parseText_of_isViable hresolve,
      h.parseText_of_not_isViable hresolve⟩

/-- A bracket that no sentence goes on with is reported, and not the empty literal behind it. -/
theorem parseText_agrees_with_tokenize_bracket :
    AliasTable.Reachable .canonical ∧
      parseText (.ofTable? (some .canonical)) "flip ] ''".toList =
        .error (.rejected .expression ⟨.rightBracket, .text "]", ⟨1, 6⟩⟩) ∧
      ∃ read, BreaksOff (.ofTable? (some .canonical)) "flip ] ''".toList read
          (.lexical .emptyLiteral ⟨1, 8⟩) ∧
        ¬ IsViable (read.map Token.kind) := by
  have htokens : tokenize (.ofTable? (some .canonical)) "flip ] ''".toList =
      .error (.lexical .emptyLiteral ⟨1, 8⟩) := by rfl
  have hparse : parseText (.ofTable? (some .canonical)) "flip ] ''".toList =
      .error (.rejected .expression ⟨.rightBracket, .text "]", ⟨1, 6⟩⟩) := by rfl
  obtain ⟨-, -, hfault, hbreaks⟩ := parseText_agrees_with_tokenize _
    (fun _ => AliasTable.reachable_of_mem_some_canonical) "flip ] ''".toList
  obtain ⟨read, hread⟩ := (hfault _).1 htokens
  refine ⟨.canonical, hparse, read, hread, ?_⟩
  intro hviable
  have hlexical := hparse.symm.trans ((hbreaks read _ hread).2.1 hviable)
  exact Fault.noConfusion (Except.error.inj hlexical)

end SetLang
