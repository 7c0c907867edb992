import SetLang.Proofs.Program.Derivation
import SetLang.Proofs.Text.Trim
import SetLang.Proofs.Token.Taken

/-!
# Layout between tokens

Blanks and complete comments may be put anywhere between the tokens of a text, and the blanks at its
ends may be taken off. The tokens keep their kinds and values, and so the text is parsed as before: to
the same tree, or up to the same token, which is rejected for the same demand.
-/

namespace SetLang

/-! ## Blanks and complete comments -/

/-- What may stand between any two tokens: blanks, and comments with their line feeds. -/
inductive IsFiller : List Char → Prop where
  | nil : IsFiller []
  | blank {c : Char} {f : List Char} : Text.isBlank c = true → IsFiller f → IsFiller (c :: f)
  | comment {body f : List Char} : '\n' ∉ body → IsFiller f →
      IsFiller ('#' :: (body ++ '\n' :: f))

namespace IsFiller

variable {f g : List Char}

theorem isGap (h : IsFiller f) (rest : List Char) : IsGap f rest := by
  induction h with
  | nil => exact .nil rest
  | blank hc _ ih => exact .blank hc ih
  | comment hbody _ ih =>
    have hblank : Text.isBlank '\n' = true := by decide
    exact .comment hbody (by simp) (.blank hblank ih)

/-- A text agrees up to a gap with what it becomes when a filler is put in front. -/
theorem agreesUpToGap (h : IsFiller f) (rest : List Char) : AgreesUpToGap rest (f ++ rest) := by
  cases h with
  | nil => exact .refl rest
  | blank hc => exact .of_head? rest (by simpa using .inl hc)
  | comment => exact .of_head? rest (by simp)

/-- The first line of a filler ends with a line feed, from which on a gap goes on, or it is all. -/
theorem exists_line (h : IsFiller f) :
    ∃ line more, f = line ++ more ∧ '\n' ∉ line ∧ (∀ c ∈ more.head?, c = '\n') ∧ IsGap more [] := by
  have hblank : Text.isBlank '\n' = true := by decide
  induction h with
  | nil => exact ⟨[], [], rfl, by simp, by simp, .nil []⟩
  | @blank c f hc hf ih =>
    by_cases hfeed : c = '\n'
    · subst hfeed
      exact ⟨[], '\n' :: f, rfl, by simp, by simp, .blank hc (hf.isGap [])⟩
    · obtain ⟨line, more, rfl, hline, hmore, hgap⟩ := ih
      refine ⟨c :: line, more, rfl, ?_, hmore, hgap⟩
      rw [List.mem_cons, not_or]
      exact ⟨Ne.symm hfeed, hline⟩
  | @comment body f hbody hf =>
    refine ⟨'#' :: body, '\n' :: f, rfl, ?_, by simp, .blank hblank (hf.isGap [])⟩
    rw [List.mem_cons, not_or]
    exact ⟨by decide, hbody⟩

/-- A filler behind the last gap of a text goes on with it, also with a comment at its end. -/
theorem gap_append (hg : IsGap g []) (hf : IsFiller f) : IsGap (g ++ f) [] := by
  generalize hnil : ([] : List Char) = rest at hg
  induction hg with
  | nil =>
    subst hnil
    exact hf.isGap []
  | blank hc _ ih => exact .blank hc (ih hnil)
  | @comment body g rest hbody hend hg ih =>
    subst hnil
    cases g with
    | nil =>
      -- the comment takes the first line of the filler
      obtain ⟨line, more, rfl, hline, hmore, hgap⟩ := hf.exists_line
      rw [List.append_nil, List.cons_append, ← List.append_assoc]
      refine .comment ?_ (by rwa [List.append_nil]) hgap
      rw [List.mem_append, not_or]
      exact ⟨hbody, hline⟩
    | cons c g =>
      rw [List.cons_append, List.append_assoc]
      exact .comment hbody hend (ih rfl)

end IsFiller

/-! ## Fillers at the boundaries of tokens -/

/-- An offset where the lexer begins a token or ends one: it has taken some tokens and stands behind
the last of them, or it has skipped the gap there too. -/
def IsTokenBoundary (resolve : Resolver) (text : List Char) (offset : Nat) : Prop :=
  ∃ read after, (Cursor.start text).Takes resolve read after ∧
    (offset = after.position ∨ offset = after.skipGap.position)

section

variable {resolve : Resolver} {text f : List Char} {ts : List Token} {offset : Nat}

/-- No token begins in a gap, so it makes no difference whether the gap is skipped beforehand. -/
theorem Scan.tokens_skipGap (resolve : Resolver) (c : Cursor) :
    (ofCursor resolve c.skipGap).tokens.1 = (ofCursor resolve c).tokens.1 := by
  have hskip : c.skipGap.token? resolve = c.token? resolve := by
    rw [Cursor.token?, Cursor.token?, Cursor.skipGap_skipGap]
  cases htoken : c.token? resolve with
  | none => rw [tokens_of_none htoken, tokens_of_none (hskip.trans htoken), Cursor.skipGap_skipGap]
  | some result =>
    obtain ⟨item, after⟩ := result
    cases item with
    | error fault => rw [tokens_of_error htoken, tokens_of_error (hskip.trans htoken)]
    | ok t => rw [tokens_of_ok htoken, tokens_of_ok (hskip.trans htoken)]

/-- Behind tokens that are taken a filler may be put into the gap. -/
theorem Cursor.Takes.exists_filled {c after : Cursor} {read us : List Token} {g rest : List Char}
    {q : Text.Place} (h : c.Takes resolve read after) (hahead : after.ahead = g ++ rest)
    (hf : IsFiller f) (hgap : IsGap (g ++ f) rest) (hrest : Tokenized resolve q rest us) :
    ∃ front vs, c.ahead = front ++ rest ∧ c.position + front.length = after.position + g.length ∧
      Tokenized resolve c.place (front ++ (f ++ rest)) vs ∧
      vs.map Token.content = (read ++ us).map Token.content := by
  obtain ⟨past, hpast, hposition, -, -, hsplice⟩ := h.exists_past
  obtain ⟨vs, hvs, hcontents⟩ := hrest.exists_moved (after.place.afterAll (g ++ f))
  have hfilled := hsplice _ _ (hahead ▸ (hf.agreesUpToGap rest).append g)
    (by rw [← List.append_assoc]; exact hvs.gap_append hgap)
  refine ⟨past ++ g, read ++ vs, ?_, ?_, ?_, ?_⟩
  · rw [hpast, hahead, List.append_assoc]
  · rw [hposition, List.length_append, Nat.add_assoc]
  · rwa [List.append_assoc]
  · rw [List.map_append, List.map_append, hcontents]

/-- A filler at a boundary leaves the tokens of a text as they are, apart from their places. -/
theorem IsTokenBoundary.exists_filled (h : IsTokenBoundary resolve text offset)
    (hts : Tokenized resolve .origin text ts) (hf : IsFiller f) :
    ∃ us, Tokenized resolve .origin (text.take offset ++ (f ++ text.drop offset)) us ∧
      us.map Token.content = ts.map Token.content := by
  obtain ⟨read, after, hread, hoffset⟩ := h
  have htokens : (Scan.ofCursor resolve (.start text)).tokens.1 = .ok ts := hts.tokens_eq rfl rfl
  rw [hread.tokens_eq] at htokens
  obtain ⟨us, hus, rfl⟩ := exists_of_map_eq_ok htokens
  have hfill {g rest : List Char} {q : Text.Place} (hahead : after.ahead = g ++ rest)
      (hoffset : offset = after.position + g.length) (hgap : IsGap (g ++ f) rest)
      (hrest : Tokenized resolve q rest us) :
      ∃ vs, Tokenized resolve .origin (text.take offset ++ (f ++ text.drop offset)) vs ∧
        vs.map Token.content = (read ++ us).map Token.content := by
    obtain ⟨front, vs, htext, hlength, hvs, hcontents⟩ :=
      hread.exists_filled hahead hf hgap hrest
    obtain rfl : front.length = offset := by
      rw [hoffset, ← hlength]
      exact (Nat.zero_add _).symm
    have hsplit : text = front ++ rest := htext
    refine ⟨vs, ?_, hcontents⟩
    rw [hsplit, List.take_left, List.drop_left]
    exact hvs
  rcases hoffset with hoffset | hoffset
  · -- behind the last token, in front of the gap
    exact hfill (g := []) rfl hoffset (hf.isGap _) (tokenized_of_tokens hus)
  · -- behind the gap
    obtain ⟨g, hahead, hgap, hnone, hskip⟩ := after.exists_skipGap_eq
    rw [← Scan.tokens_skipGap] at hus
    refine hfill hahead (by rw [hoffset, hskip]; rfl) ?_ (tokenized_of_tokens hus)
    cases hrest : after.skipGap.ahead with
    | nil =>
      rw [hrest] at hgap
      exact IsFiller.gap_append hgap hf
    | cons c rest =>
      rw [hrest] at hgap hnone
      exact (hgap.of_beginsNoGap hnone (List.cons_ne_nil c rest) _).append (hf.isGap _)

/-- Every text begins with a boundary. -/
theorem isTokenBoundary_zero (resolve : Resolver) (text : List Char) :
    IsTokenBoundary resolve text 0 :=
  ⟨[], .start text, .nil _, .inl rfl⟩

/-- A text without lexical faults ends with a boundary. -/
theorem isTokenBoundary_length (h : tokenize resolve text = .ok ts) :
    IsTokenBoundary resolve text text.length := by
  obtain ⟨read, after, hread, hend, -⟩ := Cursor.exists_takes_of_tokens (c := .start text) h
  obtain ⟨past, hpast, hposition, -⟩ := hread.exists_past_skipGap
  have htext : text = past ++ after.skipGap.ahead := hpast
  refine ⟨read, after, hread, .inr ?_⟩
  rw [hposition, htext, hend, List.append_nil]
  exact (Nat.zero_add _).symm

/-- The blanks at the ends of a text make no tokens. -/
theorem Tokenized.exists_strip {s : String} (h : Tokenized resolve .origin s.toList ts) :
    ∃ us, Tokenized resolve .origin (Text.strip s).toList us ∧
      us.map Token.content = ts.map Token.content := by
  obtain ⟨front, behind, hs, hfront, hbehind, -⟩ := Text.exists_toList_eq_append_strip s
  rw [hs] at h
  obtain ⟨us, hus, hcontents⟩ := (h.of_blanks_append hfront).exists_of_append_blanks hbehind
  obtain ⟨vs, hvs, hmoved⟩ := hus.exists_moved .origin
  exact ⟨vs, hvs, hmoved.trans hcontents⟩

end

/-! ## Outcomes of parses -/

/-- Two parses end alike: with the same tree, or with tokens of the same kind and value that are
rejected for the same demand. -/
inductive ParsedAlike : Except Fault Node → Except Fault Node → Prop where
  | accepted (tree : Node) : ParsedAlike (.ok tree) (.ok tree)
  | rejected (demand : Demand) {t u : Token} : t.content = u.content →
      ParsedAlike (.error (.rejected demand t)) (.error (.rejected demand u))

section

variable {ts us read rest : List Token} {t : Token} {s : ParseState} {demand : Demand}

/-- A list of tokens is parsed no further than the first rejected one. -/
theorem parseFeed_ofTokens_of_reject (hserved : Token.served ts = read ++ t :: rest)
    (hread : ParseState.initial.after? read = some s)
    (hmove : s.move t = .verdict (.reject demand)) :
    parseFeed (.ofTokens ts) = .error (.rejection demand t) := by
  obtain ⟨p, xs, ahead, hstart, -, hitems, hstream⟩ := Parser.exists_start_ofTokens ts
  rw [hserved, List.append_assoc, List.cons_append] at hstream
  obtain ⟨ys, hrun⟩ := Parser.exists_runOver_eq p.feed.last_kind p.calls hread hmove hstream
  rw [parseFeed, hstart]
  show (p.run .initial).1 = _
  rw [Parser.run, hitems, hrun]
  rfl

theorem Token.served_append_endAt (ts : List Token) (last : Text.Place) :
    served (ts ++ [.endAt last]) = ts ++ [.endAt last] := by
  rw [served, List.getLast?_concat]
  rfl

/-- The tokens of a text are parsed to a tree, or one of them is rejected. -/
theorem exists_ok_or_reject (hts : ∀ t ∈ ts, t.kind ≠ .endOfText) (last : Text.Place) :
    (∃ tree, parseFeed (.ofTokens (ts ++ [.endAt last])) = .ok tree) ∨
      ∃ read t rest s demand, ts ++ [.endAt last] = read ++ t :: rest ∧
        ParseState.initial.after? read = some s ∧ s.move t = .verdict (.reject demand) := by
  rcases ParseState.initial_grounded.exists_after?_or_reject ts hts with
    ⟨s, hread⟩ | ⟨read, t, more, s, demand, rfl, hread, hmove⟩
  · have hend : s.move (.endAt last) = .verdict s.onEnd := if_pos rfl
    rcases (ParseState.initial_grounded.after? hread).onEnd with ⟨done, rfl⟩ | ⟨demand, hreject⟩
    · -- between two statements of the program the end mark finishes it
      obtain ⟨ds, hwords, -⟩ := ParseState.exists_words_of_after? hread
      exact .inl ⟨_, parseFeed_ofTokens_of_words hwords⟩
    · exact .inr ⟨ts, .endAt last, [], s, demand, rfl, hread, hend.trans (congrArg _ hreject)⟩
  · exact .inr ⟨read, t, more ++ [.endAt last], s, demand, by simp, hread, hmove⟩

end

/-- Texts with tokens that differ in their places alone are parsed alike. -/
theorem parsedAlike_of_map_content {resolve : Resolver} {text text' : List Char}
    {ts us : List Token} (hresolve : resolve.Canonical) (h : Tokenized resolve .origin text ts)
    (h' : Tokenized resolve .origin text' us)
    (hcontents : us.map Token.content = ts.map Token.content) :
    ParsedAlike (parseText resolve text) (parseText resolve text') := by
  have hparse : parseText resolve text = parseFeed (.ofTokens ts) := by
    rw [parseText, Feed.ofText_eq_ofTokens (tokenize_eq_ok_iff.2 h)]
  have hparse' : parseText resolve text' = parseFeed (.ofTokens us) := by
    rw [parseText, Feed.ofText_eq_ofTokens (tokenize_eq_ok_iff.2 h')]
  obtain ⟨xs, last, hts, hbefore⟩ := h.exists_eq_concat hresolve
  obtain ⟨ys, last', hus, -⟩ := h'.exists_eq_concat hresolve
  have hkind : ∀ x ∈ xs, x.kind ≠ .endOfText := fun x hx =>
    Token.kind_ne_endOfText_of_mem_beforeEnd (hbefore ▸ hx)
  rcases exists_ok_or_reject hkind last with
    ⟨tree, hok⟩ | ⟨read, t, rest, s, demand, hsplit, hread, hmove⟩
  · rw [← hts, ← hparse] at hok
    rw [hok, (parseText_eq_ok_iff_of_map_content hresolve h h' hcontents).1 hok]
    exact .accepted tree
  · rw [← hts] at hsplit
    have hserved : Token.served ts = read ++ t :: rest := by
      rw [hts, Token.served_append_endAt, ← hts, hsplit]
    rw [hsplit, List.map_append, List.map_cons] at hcontents
    obtain ⟨read', more, hsplit', hread', hmore⟩ := List.map_eq_append_iff.1 hcontents
    obtain ⟨u, rest', rfl, hu, -⟩ := List.map_eq_cons_iff.1 hmore
    have hserved' : Token.served us = read' ++ u :: rest' := by
      rw [hus, Token.served_append_endAt, ← hus, hsplit']
    have halike : t.Alike u := by
      obtain ⟨hkind, hvalue⟩ := Prod.mk.inj hu
      exact ⟨hkind.symm, fun _ => hvalue.symm⟩
    have hreject : parseText resolve text = .error (.rejected demand t) := by
      rw [hparse, parseFeed_ofTokens_of_reject hserved hread hmove,
        Fault.rejection_eq (h.allFit t (by simp [hsplit]))]
    -- the other text gets into the same state, which rejects the token there
    rw [ParseState.after?_congr (alike_of_map_content hread'.symm)] at hread
    rw [ParseState.move_congr halike] at hmove
    have hreject' : parseText resolve text' = .error (.rejected demand u) := by
      rw [hparse', parseFeed_ofTokens_of_reject hserved' hread hmove,
        Fault.rejection_eq (h'.allFit u (by simp [hsplit']))]
    rw [hreject, hreject']
    exact .rejected demand hu.symm

/-! ## Layout -/

/-- A text has the tokens of another one, apart from their places, and is parsed alike. -/
def KeepsTokens (resolve : Resolver) (text : List Char) (ts : List Token) (text' : List Char) :
    Prop :=
  (∃ us, tokenize resolve text' = .ok us ∧ us.map Token.content = ts.map Token.content) ∧
    ParsedAlike (parseText resolve text) (parseText resolve text')

theorem keepsTokens_of_exists {resolve : Resolver} {text text' : List Char} {ts : List Token}
    (hresolve : resolve.Canonical) (hts : Tokenized resolve .origin text ts)
    (h : ∃ us, Tokenized resolve .origin text' us ∧
      us.map Token.content = ts.map Token.content) : KeepsTokens resolve text ts text' := by
  obtain ⟨us, hus, hcontents⟩ := h
  exact ⟨⟨us, tokenize_eq_ok_iff.2 hus, hcontents⟩,
    parsedAlike_of_map_content hresolve hts hus hcontents⟩

/-- Layout between tokens is insignificant: whatever words stand for, blanks and complete comments at
any boundary of a token, the ends of the text included, leave all tokens as they are, apart from
their places, and the text is parsed as before. So it is if the blanks at its ends are taken off. -/
theorem layout_is_insignificant (table : Option AliasTable) (htable : ∀ t ∈ table, t.Reachable)
    (text : List Char) (ts : List Token) (h : tokenize (.ofTable? table) text = .ok ts) :
    IsTokenBoundary (.ofTable? table) text 0 ∧
    IsTokenBoundary (.ofTable? table) text text.length ∧
    (∀ offset, IsTokenBoundary (.ofTable? table) text offset → ∀ f, IsFiller f →
      KeepsTokens (.ofTable? table) text ts (text.take offset ++ (f ++ text.drop offset))) ∧
    KeepsTokens (.ofTable? table) text ts (Text.strip (String.ofList text)).toList := by
  have hresolve := Resolver.canonical_ofTable? htable
  have hts := tokenize_eq_ok_iff.1 h
  refine ⟨isTokenBoundary_zero _ text, isTokenBoundary_length h, fun offset hoffset f hf => ?_, ?_⟩
  · exact keepsTokens_of_exists hresolve hts (hoffset.exists_filled hts hf)
  · refine keepsTokens_of_exists hresolve hts (Tokenized.exists_strip ?_)
    rwa [String.toList_ofList]

/-- A comment between two marks that would be read on otherwise, in a text that ends in a comment. -/
theorem layout_is_insignificant_comment :
    KeepsTokens (.ofTable? (some .canonical)) "!<=/# c".toList
      [⟨.predicate .notSubset, .text "!<=", ⟨1, 1⟩⟩, ⟨.slash, .text "/", ⟨1, 4⟩⟩, .endAt ⟨1, 8⟩]
      "!<=#a\n /# c".toList := by
  have htokens : tokenize (.ofTable? (some .canonical)) "!<=/# c".toList =
      .ok [⟨.predicate .notSubset, .text "!<=", ⟨1, 1⟩⟩, ⟨.slash, .text "/", ⟨1, 4⟩⟩,
        .endAt ⟨1, 8⟩] := by rfl
  have hboundary : IsTokenBoundary (.ofTable? (some .canonical)) "!<=/# c".toList 3 :=
    ⟨_, _, .cons rfl (.nil _), .inl rfl⟩
  have hfiller : IsFiller "#a\n ".toList := by
    show IsFiller ('#' :: (['a'] ++ '\n' :: [' ']))
    exact .comment (by decide) (.blank (by decide) .nil)
  have htext : "!<=#a\n /# c".toList =
      "!<=/# c".toList.take 3 ++ ("#a\n ".toList ++ "!<=/# c".toList.drop 3) := by decide
  rw [htext]
  exact (layout_is_insignificant _ (fun _ => AliasTable.reachable_of_mem_some_canonical) _ _
    htokens).2.2.1 3 hboundary _ hfiller

end SetLang
