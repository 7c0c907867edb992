import SetLang.Proofs.Grammar.Spans
import SetLang.Proofs.Program.Derivation
import SetLang.Proofs.Session.Depth
import SetLang.Proofs.Session.Line
import SetLang.Proofs.Token.FirstLines

/-!
# Blocks that are open at the end of a line

A session counts marks in the tokens of the lines so far to see whether more lines belong to the
entry. Main statement: on the lines of a program the count is right. Behind every number of tokens,
and at the end of every line, it is the number of blocks of the tree that are open there, and none is
open at the end of the program.
-/

namespace SetLang

open Phrase (words)

/-! ## Depths of tokens and spans -/

variable {spans : List Span} {ts : List Token}

theorem depthSum_eq_depthOf (ts : List Token) : depthSum ts = depthOf (ts.map Token.kind) := by
  induction ts with
  | nil => rfl
  | cons t ts ih => rw [depthSum, ih, List.map_cons, depthOf]

@[simp]
theorem depthSum_append (ts us : List Token) : depthSum (ts ++ us) = depthSum ts + depthSum us := by
  rw [depthSum_eq_depthOf, List.map_append, depthOf_append, depthSum_eq_depthOf, depthSum_eq_depthOf]

theorem depthSum_take_endAt (last : Text.Place) (n : Nat) :
    depthSum ([.endAt last].take n) = 0 := by
  cases n with
  | zero => rfl
  | succ n =>
    rw [List.take_succ_cons, List.take_nil]
    rfl

/-- The line on which the token with an index stands. -/
def Token.lineAt (ts : List Token) (index : Nat) : Int :=
  (ts[index]?.map fun t => t.place.line).getD 0

namespace Span

/-- Whether the block is open at the end of a line: its first mark stands on the line or before it,
and its last one behind it. -/
def IsOpenAtLine (s : Span) (ts : List Token) (line : Nat) : Prop :=
  Token.lineAt ts s.opening ≤ line ∧ line < Token.lineAt ts s.closing

instance (s : Span) (ts : List Token) (line : Nat) : Decidable (s.IsOpenAtLine ts line) :=
  inferInstanceAs (Decidable (_ ∧ _))

/-- How many of some blocks are open at the end of a line. -/
def openAtLine (spans : List Span) (ts : List Token) (line : Nat) : Nat :=
  spans.countP fun s => decide (s.IsOpenAtLine ts line)

/-- No block is open behind all tokens. -/
theorem openAfter_eq_zero (h : ∀ s ∈ spans, s.Encloses ts) {count : Nat}
    (hcount : ts.length ≤ count) : openAfter spans count = 0 := by
  rw [openAfter, List.countP_eq_zero]
  intro s hs
  rw [decide_eq_true_iff]
  exact fun hopen => absurd hopen.2 (Nat.not_le.2 (Nat.lt_of_lt_of_le (h s hs).lt.2 hcount))

end Span

section

variable {ds : List Phrase}

/-- The spans of a derivation enclose the statements of their nodes among its tokens. -/
theorem encloses_of_words (h : words ds = ts.map Token.kind) :
    ∀ s ∈ Phrase.spansAll ds ts, s.Encloses ts := by
  have hencloses := Phrase.encloses_of_mem_spansAll ds [] h.symm
  rwa [List.append_nil] at hencloses

/-- The count behind some tokens of a derivation is the number of blocks that are open there. -/
theorem depthSum_take_of_words (h : words ds = ts.map Token.kind) (n : Nat) :
    depthSum (ts.take n) = Span.openAfter (Phrase.spansAll ds ts) n := by
  rw [depthSum_eq_depthOf, List.map_take, ← h]
  exact Phrase.depthOf_take_words ds ts n

end

/-- No block is left open by a text that is parsed. -/
theorem blockDepth_of_parseText {resolve : Resolver} {text : List Char} {tree : Node}
    (hresolve : resolve.Canonical) (h : parseText resolve text = .ok tree) :
    blockDepth resolve text = 0 := by
  obtain ⟨ds, ts, last, htokens, hwords, -⟩ := (parseText_eq_ok_iff hresolve).1 h
  have hcount := depthSum_take_of_words hwords ts.length
  rw [Span.openAfter_eq_zero (encloses_of_words hwords) (Nat.le_refl _), List.take_length] at hcount
  rw [blockDepth_of_tokenize (tokenize_eq_ok_iff.2 htokens), depthSum_append, hcount]
  rfl

/-! ## Lines of tokens -/

variable {resolve : Resolver} {text : List Char} {segments : List Segment} {final : List Char}

namespace Segment

variable {before after : List Segment}

theorem lineAt_map_token (segments : List Segment) (last : Token) {index : Nat}
    (h : index < segments.length) :
    Token.lineAt (segments.map token ++ [last]) index = segments[index].token.place.line := by
  rw [Token.lineAt, List.getElem?_append_left (by simpa using h), List.getElem?_map,
    List.getElem?_eq_getElem h]
  rfl

/-- A token is among the first ones exactly if it stands on the first lines. -/
theorem lineAt_le_iff {line : Nat} (hbefore : ∀ s ∈ before, s.token.place.line ≤ line)
    (hafter : ∀ s ∈ after, line < s.token.place.line) (last : Token) {index : Nat}
    (h : index < (before ++ after).length) :
    Token.lineAt ((before ++ after).map token ++ [last]) index ≤ line ↔ index < before.length := by
  rw [lineAt_map_token _ last h]
  by_cases hindex : index < before.length
  · have hmem : (before ++ after)[index] ∈ before := by
      rw [List.getElem_append_left hindex]
      exact List.getElem_mem hindex
    exact ⟨fun _ => hindex, fun _ => hbefore _ hmem⟩
  · have hmem : (before ++ after)[index] ∈ after := by
      rw [List.getElem_append_right (Nat.not_lt.1 hindex)]
      exact List.getElem_mem _
    exact ⟨fun hle => absurd hle (Int.not_le.2 (hafter _ hmem)), fun hlt => absurd hlt hindex⟩

/-- The blocks that are open behind the first tokens are those that are open at the end of the line
which these tokens end with. -/
theorem openAfter_eq_openAtLine
    (hspans : ∀ s ∈ spans, s.Encloses ((before ++ after).map token)) {line : Nat}
    (hbefore : ∀ s ∈ before, s.token.place.line ≤ line)
    (hafter : ∀ s ∈ after, line < s.token.place.line) (last : Token) :
    Span.openAfter spans before.length =
      Span.openAtLine spans ((before ++ after).map token ++ [last]) line := by
  refine List.countP_congr fun s hs => ?_
  obtain ⟨hlt, hclosing⟩ := (hspans s hs).lt
  rw [List.length_map] at hclosing
  rw [decide_eq_true_iff, decide_eq_true_iff, Span.IsOpenAfter, Span.IsOpenAtLine,
    lineAt_le_iff hbefore hafter last (Nat.lt_trans hlt hclosing), ← Int.not_le,
    lineAt_le_iff hbefore hafter last hclosing, Nat.not_lt]

end Segment

/-- The count on the first lines of a text is the number of its blocks that are open at the end of
these lines, if it is so behind every number of tokens, and no lexeme goes on on the next line. -/
theorem blockDepth_firstLines
    (hcover : Segment.Cover resolve .origin segments final)
    (htext : text = Segment.chars segments ++ final) (hlexemes : ∀ s ∈ segments, '\n' ∉ s.lexeme)
    (hspans : ∀ s ∈ spans, s.Encloses (segments.map Segment.token))
    (hdepth : ∀ n, depthSum ((segments.map Segment.token).take n) = Span.openAfter spans n)
    (last : Token) (count : Nat) :
    blockDepth resolve (Text.firstLines count text).toList =
      Span.openAtLine spans (segments.map Segment.token ++ [last]) count := by
  obtain ⟨before, after, place, rfl, htokens, hbefore, hafter⟩ :=
    hcover.exists_tokenized_firstLines htext hlexemes count
  have htake : before.map Segment.token =
      ((before ++ after).map Segment.token).take before.length := by
    rw [List.map_append, List.take_left' (List.length_map _)]
  rw [blockDepth_of_tokenize (tokenize_eq_ok_iff.2 htokens), depthSum_append, htake, hdepth,
    Segment.openAfter_eq_openAtLine hspans hbefore hafter last]
  exact Int.add_zero _

/-- No block is open behind a line with the first token alone. -/
theorem openAtLine_eq_zero
    (hcover : Segment.Cover resolve .origin segments final)
    (htext : text = Segment.chars segments ++ final) (hlexemes : ∀ s ∈ segments, '\n' ∉ s.lexeme)
    (hspans : ∀ s ∈ spans, s.Encloses (segments.map Segment.token))
    (hopening : ∀ s ∈ spans, 0 < s.opening) (last : Token) {count : Nat} {t : Token}
    {place : Text.Place}
    (h : Tokenized resolve .origin (Text.firstLines count text).toList [t, .endAt place]) :
    Span.openAtLine spans (segments.map Segment.token ++ [last]) count = 0 := by
  obtain ⟨before, after, place', rfl, htokens, hbefore, hafter⟩ :=
    hcover.exists_tokenized_firstLines htext hlexemes count
  have hall := (tokenize_eq_ok_iff.2 htokens).symm.trans (tokenize_eq_ok_iff.2 h)
  have hlength : before.length = 1 := by
    simpa using congrArg List.length (Except.ok.inj hall)
  rw [← Segment.openAfter_eq_openAtLine hspans hbefore hafter last, hlength, Span.openAfter,
    List.countP_eq_zero]
  intro s hs
  rw [decide_eq_true_iff]
  exact fun hopen => absurd hopen.1 (Nat.not_lt.2 (hopening s hs))

/-! ## Sessions on the lines of a program -/

/-- A word between blanks is one token. -/
theorem exists_tokenized_word (resolve : Resolver) (c : Char) (word : List Char)
    {front behind : List Char} (hfront : ∀ d ∈ front, Text.isBlank d = true)
    (hbehind : ∀ d ∈ behind, Text.isBlank d = true) (hc : isWordStart c = true)
    (hword : ∀ d ∈ word, isWordChar d = true) :
    ∃ t last, Tokenized resolve .origin (front ++ (c :: word ++ behind)) [t, .endAt last] := by
  have hend : ∀ d ∈ behind.head?, isWordChar d = false := fun d hd =>
    isWordChar_eq_false_of_gap (.inl (hbehind d (List.mem_of_mem_head? hd)))
  have hlexeme := IsLexeme.word hc hword hend (isWordKind_iff.2 rfl : IsWordKind resolve _ _)
  exact ⟨⟨_, _, _⟩, _, .lexeme (.of_blanks hfront _)
    (fun d hd => Option.some.inj hd ▸ not_gap_of_isWordChar (isWordChar_of_isWordStart hc)) hlexeme
    rfl (.done (.of_blanks hbehind []))⟩

/-- A line that leaves a session is a word between blanks. -/
theorem Session.Leaves.exists_tokenized {s : Session} {line : String} (h : s.Leaves line)
    (resolve : Resolver) : ∃ t last, Tokenized resolve .origin line.toList [t, .endAt last] := by
  obtain ⟨front, behind, hline, hfront, hbehind, -⟩ := Text.exists_toList_eq_append_strip line
  rw [hline]
  rcases h.2 with hstrip | hstrip
  · rw [hstrip]
    exact exists_tokenized_word resolve 'e' "xit".toList hfront hbehind (by decide)
      (forall_mem_of_all (by decide))
  · rw [hstrip]
    exact exists_tokenized_word resolve 'q' "uit".toList hfront hbehind (by decide)
      (forall_mem_of_all (by decide))

/-- A session takes the line behind the first lines of a text with all of these. -/
theorem Session.linesWith_eq {s : Session} {line : String} {k : Nat}
    (hpending : s.pending = (Text.sourceLines text).take k)
    (hline : (Text.sourceLines text)[k]? = some line) :
    s.linesWith line = Text.firstLines (k + 1) text := by
  rw [linesWith, hpending, Text.firstLines, List.take_add_one, hline]
  rfl

/-- A session that has collected the first lines of a text, and counts some open blocks with the next
one, asks for one more line if there are any, and takes the lines as an entry otherwise. -/
theorem Session.enter_eq_of_blockDepth {s : Session} {line : String} {k opened : Nat}
    (hpending : s.pending = (Text.sourceLines text).take k)
    (hline : (Text.sourceLines text)[k]? = some line) (hleaves : ¬s.Leaves line)
    (hcount : blockDepth s.aliases.kind? (Text.firstLines (k + 1) text).toList = opened) :
    s.enter line =
      if 0 < opened then return .proceed { s with pending := (Text.sourceLines text).take (k + 1) }
      else carryOut { s with pending := [] } (Text.strip (Text.firstLines (k + 1) text)) := by
  have hwith := linesWith_eq hpending hline
  have hcontinues : s.Continues line ↔ 0 < opened := by
    rw [Continues, hwith, hcount]
    exact Int.natCast_pos
  split
  · next hopen =>
    rw [enter_of_continues hleaves (hcontinues.2 hopen), hpending, List.take_add_one, hline]
    rfl
  · next hclosed => exact enter_of_completes ⟨hleaves, mt hcontinues.1 hclosed, by rw [hwith]⟩

open Session in
/-- A session counts right on the lines of a program. The tree of an accepted text has a span for
every node with statements inside, which encloses these among the tokens. Behind every number of
tokens, and so on the whole text, the count is the number of the spans that are open there. If no
character literal has a line feed in it, the count on the first lines of the text is the number of
those that are open at the end of these lines; so a session that has collected them asks for one more
line exactly if a block is open, and takes them as an entry otherwise. No block is open behind a line
that leaves the session. -/
theorem block_count_agrees {table : AliasTable} (htable : table.Reachable) {tree : Node}
    (h : parseText table.kind? text = .ok tree) :
    ∃ (segments : List Segment) (final : List Char) (spans : List Span),
      let ts := segments.map Segment.token ++ [.endAt (.behind text)]
      tokenize table.kind? text = .ok ts ∧ text = Segment.chars segments ++ final ∧
      Segment.Cover table.kind? .origin segments final ∧
      spans.map Span.node = Node.blocks tree.walk ∧ spans.Pairwise Span.OpensBefore ∧
      (∀ s ∈ spans, s.Encloses ts) ∧ blockDepth table.kind? text = 0 ∧
      (∀ n, depthSum (ts.take n) = Span.openAfter spans n) ∧
      ((∀ s ∈ segments, s.token.kind = .quotedChar ∨ s.token.kind = .testedChar →
          '\n' ∉ s.lexeme) →
        (∀ k, blockDepth table.kind? (Text.firstLines k text).toList =
          Span.openAtLine spans ts k) ∧
        ∀ (s : Session) (k : Nat) (line : String), s.aliases = table →
          s.pending = (Text.sourceLines text).take k → (Text.sourceLines text)[k]? = some line →
          (s.Leaves line → Span.openAtLine spans ts (k + 1) = 0) ∧
          (¬s.Leaves line → s.enter line =
            if 0 < Span.openAtLine spans ts (k + 1) then
              return .proceed { s with pending := (Text.sourceLines text).take (k + 1) }
            else carryOut { s with pending := [] } (Text.strip (Text.firstLines (k + 1) text)))) := by
  have hresolve := htable.canonical_kind?
  obtain ⟨ds, us, last, htokens, hwords, rfl⟩ := (parseText_eq_ok_iff hresolve).1 h
  obtain ⟨segments, final, htext, hfinal, hts, hfits⟩ := htokens.exists_segments
  obtain ⟨rfl, hlast⟩ := List.append_inj' hts rfl
  rw [hlast, Text.Place.afterAll_origin] at htokens
  have hcover : Segment.Cover table.kind? .origin segments final := ⟨hfinal, hfits⟩
  let spans := Phrase.spansAll ds (segments.map Segment.token)
  have hspans : ∀ s ∈ spans, s.Encloses (segments.map Segment.token) := encloses_of_words hwords
  have hdepth := depthSum_take_of_words hwords
  have hall (n : Nat) : depthSum ((segments.map Segment.token ++
      [Token.endAt (.behind text)]).take n) = Span.openAfter spans n := by
    rw [← hdepth, List.take_append, depthSum_append, depthSum_take_endAt, Int.add_zero]
  refine ⟨segments, final, spans, tokenize_eq_ok_iff.2 htokens, htext, hcover,
    Phrase.map_node_spansAll ds _, Phrase.pairwise_spansAll ds _,
    fun s hs => (hspans s hs).append_right _, blockDepth_of_parseText hresolve h, hall, ?_⟩
  intro hliterals
  have hlexemes := hcover.lineFeed_notMem hliterals
  have hlines := blockDepth_firstLines hcover htext hlexemes hspans hdepth (.endAt (.behind text))
  refine ⟨hlines, fun s k line haliases hpending hline => ⟨fun hleaves => ?_, fun hleaves => ?_⟩⟩
  · obtain ⟨t, place, hword⟩ := hleaves.exists_tokenized table.kind?
    have hfirst : line = Text.firstLines (k + 1) text := by
      rw [← linesWith_eq hpending hline, linesWith, hleaves.1]
      rfl
    rw [hfirst] at hword
    exact openAtLine_eq_zero hcover htext hlexemes hspans
      (Phrase.opening_pos_of_mem_spansAll ds _) _ hword
  · subst haliases
    exact enter_eq_of_blockDepth hpending hline hleaves (hlines (k + 1))

/-- Two loops, the first line of which ends with a comment that counts for nothing: both are open behind
this line, one behind the second line, and none at the end. -/
theorem block_count_agrees_nested :
    let resolve : Resolver := AliasTable.canonical.kind?
    let text := "⊂∅[⊃∅[#[\n;]\n]".toList
    let inner : Node := .mk .loop (.text "PROPER_SUPERSET") [.mk .set .absent [], .leaf .increment]
    let outer : Node := .mk .loop (.text "PROPER_SUBSET") [.mk .set .absent [], inner]
    let s := Session.fresh false .canonical
    parseText resolve text = .ok (.mk .program .absent [outer]) ∧
      ∃ ts spans, tokenize resolve text = .ok ts ∧ spans.map Span.node = [outer, inner] ∧
        blockDepth resolve text = 0 ∧ Span.openAtLine spans ts 1 = 2 ∧
        Span.openAtLine spans ts 2 = 1 ∧ Span.openAtLine spans ts 3 = 0 ∧
        s.enter "⊂∅[⊃∅[#[" = return .proceed { s with pending := ["⊂∅[⊃∅[#["] } := by
  intro resolve text inner outer s
  have hparse : parseText AliasTable.canonical.kind? "⊂∅[⊃∅[#[\n;]\n]".toList =
      .ok (.mk .program .absent [outer]) := by rfl
  have hkinds :
      ∀ t ∈ (tokenize AliasTable.canonical.kind? "⊂∅[⊃∅[#[\n;]\n]".toList).toOption.getD [],
        ¬(t.kind = .quotedChar ∨ t.kind = .testedChar) := by decide
  obtain ⟨segments, final, spans, htokens, -, -, hnodes, -, -, hwhole, -, hlines⟩ :=
    block_count_agrees .canonical hparse
  rw [htokens] at hkinds
  obtain ⟨hdepths, henter⟩ := hlines fun s hs hliteral =>
    absurd hliteral (hkinds s.token (List.mem_append_left _ (List.mem_map_of_mem hs)))
  have hopen (k n : Nat) (hn : blockDepth AliasTable.canonical.kind?
      (Text.firstLines k "⊂∅[⊃∅[#[\n;]\n]".toList).toList = n) : Span.openAtLine spans _ k = n :=
    Int.ofNat_inj.1 ((hdepths k).symm.trans hn)
  have hfirst := hopen 1 2 (by decide)
  have hline : s.enter "⊂∅[⊃∅[#[" = return .proceed { s with pending := ["⊂∅[⊃∅[#["] } := by
    have hlines : Text.sourceLines "⊂∅[⊃∅[#[\n;]\n]".toList = ["⊂∅[⊃∅[#[", ";]", "]"] := by decide
    rw [(henter s 0 "⊂∅[⊃∅[#[" rfl rfl (by rw [hlines]; rfl)).2 (by decide), hfirst, hlines]
    rfl
  exact ⟨hparse, _, spans, htokens, hnodes, hwhole, hfirst, hopen 2 1 (by decide),
    hopen 3 0 (by decide), hline⟩

end SetLang
