import SetLang.Proofs.Program.Source
import SetLang.Proofs.Token.Boundary

/-!
# Derivations of texts

A text is parsed exactly if its tokens before the end mark have a derivation, and to the tree of the
derivation over them. What the parser takes of a token is its kind, and of a literal its value. So
texts with like tokens are parsed alike, and the tokens of two programs one after the other are a
program with the statements of both.
-/

namespace SetLang

open Phrase (words trees)

/-! ## Like tokens -/

/-- Tokens that no state tells apart: they are of one kind, and literals are of one value. -/
structure Token.Alike (t u : Token) : Prop where
  kind_eq : t.kind = u.kind
  value_eq : t.kind = .integer ∨ t.kind = .quotedChar ∨ t.kind = .testedChar → t.value = u.value

theorem map_kind_eq_of_alike {ts us : List Token} (h : List.Forall₂ Token.Alike ts us) :
    ts.map Token.kind = us.map Token.kind := by
  induction h with
  | nil => rfl
  | cons hfirst _ ih => rw [List.map_cons, List.map_cons, hfirst.kind_eq, ih]

theorem alike_of_map_content {ts us : List Token} (h : ts.map Token.content = us.map Token.content) :
    List.Forall₂ Token.Alike ts us := by
  induction ts generalizing us with
  | nil =>
    obtain rfl := List.map_eq_nil_iff.1 h.symm
    exact .nil
  | cons t ts ih =>
    obtain ⟨u, us, rfl, htu, hrest⟩ := List.map_eq_cons_iff.1 h.symm
    obtain ⟨hkind, hvalue⟩ := Prod.mk.inj htu
    exact .cons ⟨hkind.symm, fun _ => hvalue.symm⟩ (ih hrest.symm)

theorem statementMove_congr {t u : Token} (h : t.Alike u) (frames : List Frame) :
    statementMove t frames = statementMove u frames := by
  obtain ⟨kind, value, place⟩ := t
  obtain ⟨kind', value', place'⟩ := u
  obtain ⟨rfl, hvalue⟩ := h
  cases kind with
  | quotedChar | testedChar =>
    obtain rfl := hvalue (by simp)
    rfl
  | _ => rfl

theorem expressionMove_congr {t u : Token} (h : t.Alike u) (frames : List Frame) :
    expressionMove t frames = expressionMove u frames := by
  obtain ⟨kind, value, place⟩ := t
  obtain ⟨kind', value', place'⟩ := u
  obtain ⟨rfl, hvalue⟩ := h
  cases kind with
  | integer =>
    obtain rfl := hvalue (by simp)
    rfl
  | _ => rfl

namespace ParseState

variable {t u : Token} {ts us : List Token}

/-- Like tokens move every state alike. -/
theorem move_congr (h : t.Alike u) (s : ParseState) : s.move t = s.move u := by
  obtain ⟨goal, frames⟩ := s
  have htoken : onToken ⟨goal, frames⟩ t = onToken ⟨goal, frames⟩ u := by
    cases goal with
    | statement => exact statementMove_congr h frames
    | statements block done =>
      simp only [onToken, blockMove, h.kind_eq, statementMove_congr h]
    | expression => exact expressionMove_congr h frames
    | firstElement => simp only [onToken, h.kind_eq, expressionMove_congr h]
    | setLiteral | moreElements | openLoop | openTest => simp only [onToken, h.kind_eq]
  rw [move, move, h.kind_eq, htoken]

theorem after?_congr (h : List.Forall₂ Token.Alike ts us) (s : ParseState) :
    s.after? ts = s.after? us := by
  induction h generalizing s with
  | nil => rfl
  | cons hfirst _ ih =>
    rw [after?, after?, move_congr hfirst]
    split
    · exact ih _
    · rfl

end ParseState

namespace Phrase

variable {ds ds' : List Phrase} {ts ts' us : List Token}

/-- The trees of a derivation over like tokens are the same. -/
theorem trees_congr (h : words ds = ts.map Token.kind) (halike : List.Forall₂ Token.Alike ts us) :
    trees ds ts = trees ds us := by
  have hts := ParseState.after?_of_words h
  rw [ParseState.after?_congr halike,
    ParseState.after?_of_words (h.trans (map_kind_eq_of_alike halike))] at hts
  simpa using (Option.some.inj hts).symm

@[simp]
theorem words_append (ds ds' : List Phrase) : words (ds ++ ds') = words ds ++ words ds' := by
  induction ds with
  | nil => rfl
  | cons d ds ih => simp [ih]

/-- The trees of two derivations one after the other, over the tokens of both. -/
theorem trees_append (h : words ds = ts.map Token.kind) (h' : words ds' = ts'.map Token.kind) :
    trees (ds ++ ds') (ts ++ ts') = trees ds ts ++ trees ds' ts' := by
  have hwords : words (ds ++ ds') = (ts ++ ts').map Token.kind := by
    rw [words_append, h, h', List.map_append]
  have hboth := ParseState.after?_of_words hwords
  rw [ParseState.after?_append (ParseState.after?_of_words h),
    after?_words ds' .program _ [] [] trivial h'.symm, List.append_nil, ← List.reverse_append] at hboth
  simpa using (Option.some.inj hboth).symm

end Phrase

/-! ## Tokens of texts -/

section

variable {resolve : Resolver} {p : Text.Place} {text : List Char} {ts : List Token} {tree : Node}

/-- The end mark is the last token of a text and no other. -/
theorem Tokenized.exists_eq_concat (hresolve : resolve.Canonical)
    (h : Tokenized resolve p text ts) :
    ∃ us last, ts = us ++ [.endAt last] ∧ Token.beforeEnd ts = us := by
  induction h with
  | done hgap => exact ⟨[], _, rfl, rfl⟩
  | @lexeme p g x rest t ts hgap hnone hx ht _ ih =>
    obtain ⟨us, last, rfl, hbefore⟩ := ih
    refine ⟨t :: us, last, rfl, ?_⟩
    rw [Token.beforeEnd, List.takeWhile_cons_of_pos (by simpa using hx.kind_ne_endOfText hresolve)]
    exact congrArg (t :: ·) hbefore

/-- The integers that stand in a text fit decimal text. -/
theorem Tokenized.allFit (h : Tokenized resolve p text ts) : Token.AllFit ts := by
  induction h with
  | done hgap =>
    intro t ht
    obtain rfl := List.mem_singleton.1 ht
    trivial
  | lexeme hgap hnone hx ht hrest ih =>
    intro u hu
    rcases List.mem_cons.1 hu with rfl | hmem
    · exact hx.fits
    · exact ih u hmem

/-- A text that is parsed has no lexical fault. -/
theorem exists_tokenized_of_parseText (hresolve : resolve.Canonical)
    (h : parseText resolve text = .ok tree) : ∃ ts, Tokenized resolve .origin text ts := by
  cases htokens : tokenize resolve text with
  | ok ts => exact ⟨ts, tokenize_eq_ok_iff.1 htokens⟩
  | error fault =>
    obtain ⟨read, hread⟩ := tokenize_eq_error_iff.1 htokens
    by_cases hviable : IsViable (read.map Token.kind)
    · cases h.symm.trans (hread.parseText_of_isViable hresolve hviable)
    · obtain ⟨_, _, _, -, -, hparse, -⟩ := hread.parseText_of_not_isViable hresolve hviable
      cases h.symm.trans hparse

/-- A text is parsed to a tree exactly if it is that of a derivation of its tokens. -/
theorem parseText_eq_ok_iff (hresolve : resolve.Canonical) :
    parseText resolve text = .ok tree ↔
      ∃ ds ts last, Tokenized resolve .origin text (ts ++ [.endAt last]) ∧
        words ds = ts.map Token.kind ∧ tree = Phrase.programTree ds ts := by
  constructor
  · intro h
    obtain ⟨ts, hts⟩ := exists_tokenized_of_parseText hresolve h
    obtain ⟨us, last, rfl, hbefore⟩ := hts.exists_eq_concat hresolve
    rw [parseText, Feed.ofText_eq_ofTokens (tokenize_eq_ok_iff.2 hts)] at h
    obtain ⟨q, houtcome⟩ := Parser.exists_outcome_parseFeed (us ++ [.endAt last])
    rw [h] at houtcome
    generalize hresult : (Except.ok tree : Except Fault Node) = result at houtcome
    cases houtcome with
    | accepted ds q hwords =>
      rw [hbefore] at hwords hresult
      exact ⟨ds, us, last, hts, hwords, Except.ok.inj hresult⟩
    | rejected => cases hresult
  · rintro ⟨ds, ts, last, hts, hwords, rfl⟩
    rw [parseText, Feed.ofText_eq_ofTokens (tokenize_eq_ok_iff.2 hts),
      parseFeed_ofTokens_of_words hwords]

/-- Texts with like tokens are parsed to the same trees. -/
theorem parseText_eq_ok_iff_of_alike {resolve' : Resolver} {text' : List Char} {ts' : List Token}
    {last last' : Text.Place} (hresolve : resolve.Canonical) (hresolve' : resolve'.Canonical)
    (h : Tokenized resolve .origin text (ts ++ [.endAt last]))
    (h' : Tokenized resolve' .origin text' (ts' ++ [.endAt last']))
    (halike : List.Forall₂ Token.Alike ts ts') :
    parseText resolve text = .ok tree ↔ parseText resolve' text' = .ok tree := by
  -- a derivation of the one text is one of the other text, with the same tree
  have hkinds := map_kind_eq_of_alike halike
  rw [parseText_eq_ok_iff hresolve, parseText_eq_ok_iff hresolve']
  constructor
  · rintro ⟨ds, us, place, hus, hwords, rfl⟩
    have heq := Except.ok.inj ((tokenize_eq_ok_iff.2 hus).symm.trans (tokenize_eq_ok_iff.2 h))
    obtain ⟨rfl, -⟩ := List.append_inj' heq rfl
    exact ⟨ds, ts', last', h', hwords.trans hkinds,
      congrArg (Node.mk .program .absent) (Phrase.trees_congr hwords halike)⟩
  · rintro ⟨ds, us, place, hus, hwords, rfl⟩
    have heq := Except.ok.inj ((tokenize_eq_ok_iff.2 hus).symm.trans (tokenize_eq_ok_iff.2 h'))
    obtain ⟨rfl, -⟩ := List.append_inj' heq rfl
    have hwords' := hwords.trans hkinds.symm
    exact ⟨ds, ts, last, h, hwords',
      congrArg (Node.mk .program .absent) (Phrase.trees_congr hwords' halike).symm⟩

/-- Texts with tokens that differ in their places alone are parsed alike. -/
theorem parseText_eq_ok_iff_of_map_content {text' : List Char} {us : List Token}
    (hresolve : resolve.Canonical) (h : Tokenized resolve .origin text ts)
    (h' : Tokenized resolve .origin text' us) (hcontents : us.map Token.content = ts.map Token.content) :
    parseText resolve text = .ok tree ↔ parseText resolve text' = .ok tree := by
  obtain ⟨ts, last, rfl, -⟩ := h.exists_eq_concat hresolve
  obtain ⟨us, last', rfl, -⟩ := h'.exists_eq_concat hresolve
  rw [List.map_append, List.map_append] at hcontents
  exact parseText_eq_ok_iff_of_alike hresolve hresolve h h'
    (alike_of_map_content (List.append_inj_left' hcontents rfl).symm)

/-- Two texts with a line feed between them are parsed to the statements of both. -/
theorem parseText_append_lineFeed {text' : List Char} {tree' : Node} (hresolve : resolve.Canonical)
    (h : parseText resolve text = .ok tree) (h' : parseText resolve text' = .ok tree') :
    parseText resolve (text ++ '\n' :: text') =
      .ok (.mk .program .absent (tree.children ++ tree'.children)) := by
  obtain ⟨ds, ts, last, hts, hwords, rfl⟩ := (parseText_eq_ok_iff hresolve).1 h
  obtain ⟨ds', ts', last', hts', hwords', rfl⟩ := (parseText_eq_ok_iff hresolve).1 h'
  obtain ⟨all, hall, hcontents⟩ := hts.exists_append_lineFeed hts'
  obtain ⟨us, last'', rfl, -⟩ := hall.exists_eq_concat hresolve
  rw [List.dropLast_concat, ← List.append_assoc, List.map_append, List.map_append] at hcontents
  have halike : List.Forall₂ Token.Alike (ts ++ ts') us :=
    alike_of_map_content (List.append_inj_left' hcontents rfl).symm
  have hboth : words (ds ++ ds') = (ts ++ ts').map Token.kind := by
    rw [Phrase.words_append, hwords, hwords', List.map_append]
  have htrees : trees (ds ++ ds') us = trees ds ts ++ trees ds' ts' :=
    (Phrase.trees_congr hboth halike).symm.trans (Phrase.trees_append hwords hwords')
  exact (parseText_eq_ok_iff hresolve).2
    ⟨ds ++ ds', us, last'', hall, hboth.trans (map_kind_eq_of_alike halike),
      congrArg (Node.mk .program .absent) htrees.symm⟩

end

end SetLang
