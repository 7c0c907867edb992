import SetLang.Proofs.Token.Payload
import Mathlib.Data.List.Induction

/-!
# Partitions of texts into tokens

A text without lexical faults is gaps and lexemes in turn, with a last gap before the end mark. Each
lexeme is placed by the line feeds before it and by the characters behind the last of them, and it
alone decides the kind and the value of its token.
-/

namespace SetLang

/-! ## Places by counting -/

namespace Text.Place

@[simp] theorem afterAll_append (p : Place) (xs ys : List Char) :
    p.afterAll (xs ++ ys) = (p.afterAll xs).afterAll ys :=
  List.foldl_append

/-- The place behind the beginning of a text: the line feeds are counted, and the characters behind
the last of them. -/
def behind (past : List Char) : Place :=
  ⟨1 + past.count '\n', 1 + (past.reverse.takeWhile (· ≠ '\n')).length⟩

theorem afterAll_origin (past : List Char) : origin.afterAll past = behind past := by
  -- from the first character to the last one, as places are kept
  induction past using List.reverseRecOn with
  | nil => rfl
  | append_singleton past c ih =>
    have hstep : origin.afterAll (past ++ [c]) = (behind past).after c := by
      rw [afterAll_append, ih]
      rfl
    rw [hstep, after, behind, behind, List.count_append, List.reverse_append,
      List.reverse_singleton, List.singleton_append]
    by_cases hc : c = '\n'
    · rw [if_pos hc, List.takeWhile_cons_of_neg (by simp [hc]), hc]
      simp [Int.add_assoc]
    · rw [if_neg hc, List.takeWhile_cons_of_pos (by simpa using hc)]
      simp [hc, Int.add_assoc]

end Text.Place

/-! ## Lexemes decide their tokens -/

/-- A lexeme before the rest of a text is one at the end of a text. -/
theorem IsLexeme.alone {resolve : Resolver} {x rest : List Char} {kind : TokenKind} {value : Value}
    (h : IsLexeme resolve x rest kind value) : IsLexeme resolve x [] kind value := by
  cases h with
  | word hfirst hmore _ hkind => exact .word hfirst hmore (by simp) hkind
  | integer hdigits _ hlength => exact .integer hdigits (by simp) hlength
  | quoted hbody => exact .quoted hbody
  | tested hbody => exact .tested hbody
  | mark hsymbol hlongest =>
    refine .mark hsymbol ⟨hlongest.1, fun y hy hbegins => hlongest.2 y hy ?_⟩
    rw [List.append_nil] at hbegins
    exact hbegins.trans (List.prefix_append _ _)
  | @unknown c rest hsymbol hnone =>
    exact .unknown hsymbol fun y hy hbegins =>
      hnone y hy (hbegins.trans (List.prefix_append [c] rest))

/-- The kind and the value of a token depend on its lexeme and on nothing behind it. -/
theorem IsLexeme.unique {resolve : Resolver} {x rest rest' : List Char} {kind kind' : TokenKind}
    {value value' : Value} (h : IsLexeme resolve x rest kind value)
    (h' : IsLexeme resolve x rest' kind' value') : kind = kind' ∧ value = value' := by
  cases x with
  | nil => exact absurd rfl h.ne_nil
  | cons first more =>
    -- at the end of a text only one token is read
    have hahead : (Cursor.start (first :: more)).ahead = first :: more ++ [] := by
      rw [List.append_nil]
      rfl
    have hread := Cursor.lexeme_eq_of_isLexeme hahead h.alone
    rw [Cursor.lexeme_eq_of_isLexeme hahead h'.alone] at hread
    obtain ⟨htoken, -⟩ := Prod.mk.inj hread
    obtain ⟨hkind, hvalue, -⟩ := Token.mk.inj (Except.ok.inj htoken)
    exact ⟨hkind.symm, hvalue.symm⟩

/-! ## Partitions -/

/-- A text from a place on is cut into tokens: a gap and a lexeme for each of them, and a last gap
before the end mark. -/
inductive Tokenized (resolve : Resolver) : Text.Place → List Char → List Token → Prop where
  | done {p : Text.Place} {g : List Char} : IsGap g [] →
      Tokenized resolve p g [.endAt (p.afterAll g)]
  | lexeme {p : Text.Place} {g x rest : List Char} {t : Token} {ts : List Token} :
      IsGap g (x ++ rest) → BeginsNoGap (x ++ rest) → IsLexeme resolve x rest t.kind t.value →
      t.place = p.afterAll g → Tokenized resolve (p.afterAll (g ++ x)) rest ts →
      Tokenized resolve p (g ++ (x ++ rest)) (t :: ts)

/-- A token that is taken is a gap and its lexeme, and the cursor behind it stands behind both. -/
theorem Cursor.exists_of_token?_eq_ok {resolve : Resolver} {c after : Cursor} {t : Token}
    (h : c.token? resolve = some (.ok t, after)) :
    ∃ g x, c.ahead = g ++ (x ++ after.ahead) ∧ IsGap g (x ++ after.ahead) ∧
      BeginsNoGap (x ++ after.ahead) ∧ IsLexeme resolve x after.ahead t.kind t.value ∧
      t.place = c.place.afterAll g ∧ after.place = c.place.afterAll (g ++ x) ∧
      after.position = c.position + (g ++ x).length := by
  obtain ⟨g, hahead, hgap, hnone, hskip⟩ := c.exists_skipGap_eq
  obtain ⟨first, text, hfirst, hlexeme⟩ := exists_of_token?_eq_some h
  obtain ⟨x, rest, hsplit, hx, ht, rfl⟩ := reads_of_lexeme hfirst hlexeme
  have hplace : c.skipGap.place = c.place.afterAll g := by
    rw [hskip, place_pass_of_ahead hahead]
  rw [ahead_pass_of_ahead hsplit]
  rw [hsplit] at hahead hgap hnone
  refine ⟨g, x, hahead, hgap, hnone, hx, by rw [ht, hplace], ?_, ?_⟩
  · rw [place_pass_of_ahead hsplit, hplace, ← Text.Place.afterAll_append]
  · rw [hskip, List.length_append, ← Nat.add_assoc]
    rfl

/-- What a scan collects is what the text is cut into. -/
theorem tokenized_of_tokens {resolve : Resolver} {c : Cursor} {ts : List Token}
    (h : (Scan.ofCursor resolve c).tokens.1 = .ok ts) : Tokenized resolve c.place c.ahead ts := by
  induction c using Cursor.induction_on_tokens resolve generalizing ts with
  | step c ih =>
    cases htoken : c.token? resolve with
    | none =>
      obtain ⟨g, hahead, hgap, -, hskip⟩ := c.exists_skipGap_eq
      rw [Scan.tokens_of_none htoken, hskip, Cursor.place_pass_of_ahead hahead] at h
      rw [Cursor.token?_eq_none_iff.1 htoken] at hahead hgap
      obtain rfl := Except.ok.inj h
      rw [hahead, List.append_nil]
      exact .done hgap
    | some result =>
      obtain ⟨item, after⟩ := result
      cases item with
      | error fault =>
        rw [Scan.tokens_of_error htoken] at h
        cases h
      | ok t =>
        obtain ⟨g, x, hahead, hgap, hnone, hx, ht, hplace, -⟩ := Cursor.exists_of_token?_eq_ok htoken
        rw [Scan.tokens_of_ok htoken] at h
        obtain ⟨us, hus, rfl⟩ := exists_of_map_eq_ok h
        have hrest := ih _ htoken hus
        rw [hplace] at hrest
        rw [hahead]
        exact .lexeme hgap hnone hx ht hrest

/-- What a text is cut into is what a scan collects. -/
theorem Tokenized.tokens_eq {resolve : Resolver} {p : Text.Place} {text : List Char}
    {ts : List Token} (h : Tokenized resolve p text ts) {c : Cursor} (hplace : c.place = p)
    (hahead : c.ahead = text) : (Scan.ofCursor resolve c).tokens.1 = .ok ts := by
  induction h generalizing c with
  | @done p g hgap =>
    rw [← List.append_nil g] at hahead
    have hskip := Cursor.skipGap_eq_pass hahead hgap (by simp [BeginsNoGap])
    have hend : c.token? resolve = none := by
      rw [Cursor.token?_eq_none_iff, hskip, Cursor.ahead_pass_of_ahead hahead]
    rw [Scan.tokens_of_none hend, hskip, Cursor.place_pass_of_ahead hahead, hplace]
  | @lexeme p g x rest t ts hgap hnone hx ht _ ih =>
    have hskip := Cursor.skipGap_eq_pass hahead hgap hnone
    have hskipped : c.skipGap.ahead = x ++ rest := by
      rw [hskip, Cursor.ahead_pass_of_ahead hahead]
    have hskippedPlace : c.skipGap.place = p.afterAll g := by
      rw [hskip, Cursor.place_pass_of_ahead hahead, hplace]
    have htoken : c.token? resolve = some (.ok t, c.skipGap.pass x.length) := by
      rw [Cursor.token?_of_isLexeme hskipped hx, hskippedPlace, ← ht]
    rw [Scan.tokens_of_ok htoken, ih ?_ (Cursor.ahead_pass_of_ahead hskipped)]
    · rfl
    · rw [Cursor.place_pass_of_ahead hskipped, hskippedPlace, Text.Place.afterAll_append]

theorem tokenize_eq_ok_iff {resolve : Resolver} {text : List Char} {ts : List Token} :
    tokenize resolve text = .ok ts ↔ Tokenized resolve .origin text ts :=
  ⟨fun h => tokenized_of_tokens (c := .start text) h, fun h => h.tokens_eq rfl rfl⟩

/-! ## Segments -/

/-- A piece of a text that makes one token: a gap and the lexeme behind it. -/
structure Segment where
  gap : List Char
  lexeme : List Char
  token : Token

/-- The characters of some segments. -/
def Segment.chars (segments : List Segment) : List Char :=
  segments.flatMap fun s => s.gap ++ s.lexeme

/-- A segment is right between the characters before it and those behind it: its gap is one that no
other gap follows, and its lexeme decides the token, which is placed where the lexeme begins. -/
structure Segment.Fits (resolve : Resolver) (s : Segment) (start : Text.Place)
    (past rest : List Char) : Prop where
  isGap : IsGap s.gap (s.lexeme ++ rest)
  beginsNoGap : BeginsNoGap (s.lexeme ++ rest)
  isLexeme : IsLexeme resolve s.lexeme rest s.token.kind s.token.value
  place_eq : s.token.place = start.afterAll (past ++ s.gap)

namespace Tokenized

variable {resolve : Resolver} {p : Text.Place} {text : List Char} {ts : List Token}

/-- The segments of a text, each of them right between those before it and those behind it. -/
theorem exists_segments (h : Tokenized resolve p text ts) :
    ∃ (segments : List Segment) (final : List Char),
      text = Segment.chars segments ++ final ∧ IsGap final [] ∧
      ts = segments.map Segment.token ++ [.endAt (p.afterAll text)] ∧
      ∀ before s after, segments = before ++ s :: after →
        s.Fits resolve p (Segment.chars before) (Segment.chars after ++ final) := by
  induction h with
  | @done p g hgap => exact ⟨[], g, rfl, hgap, rfl, by simp⟩
  | @lexeme p g x rest t ts hgap hnone hx ht _ ih =>
    obtain ⟨segments, final, rfl, hfinal, rfl, hfits⟩ := ih
    refine ⟨⟨g, x, t⟩ :: segments, final, by simp [Segment.chars], hfinal, ?_, ?_⟩
    · rw [← Text.Place.afterAll_append, List.append_assoc]
      rfl
    · intro before s after hsplit
      cases before with
      | nil =>
        obtain ⟨rfl, rfl⟩ := List.cons.inj hsplit
        exact ⟨hgap, hnone, hx, ht⟩
      | cons first before =>
        obtain ⟨rfl, hrest⟩ := List.cons.inj hsplit
        obtain ⟨hsgap, hsnone, hslexeme, hsplace⟩ := hfits before s after hrest
        refine ⟨hsgap, hsnone, hslexeme, ?_⟩
        rw [hsplace, ← Text.Place.afterAll_append]
        simp [Segment.chars]

end Tokenized

/-- The tokens of a text are a partition of it without loss: the text is gaps and lexemes in turn and
a last gap, each gap is blanks and comments that no other gap follows, each lexeme is as long as its
class allows and decides the kind and the value of its token, each token is placed by the line feeds
before its lexeme and the characters behind the last of them, and the end mark is the last token and
no other. -/
theorem tokenize_partitions_text (table : Option AliasTable) (htable : ∀ t ∈ table, t.Reachable)
    (text : List Char) (ts : List Token) (h : tokenize (.ofTable? table) text = .ok ts) :
    ∃ (segments : List Segment) (final : List Char),
      text = Segment.chars segments ++ final ∧ IsGap final [] ∧
      ts = segments.map Segment.token ++ [.endAt (.behind text)] ∧
      (∀ s ∈ segments, s.token.kind ≠ .endOfText) ∧
      ∀ before s after, segments = before ++ s :: after →
        IsGap s.gap (s.lexeme ++ (Segment.chars after ++ final)) ∧
        BeginsNoGap (s.lexeme ++ (Segment.chars after ++ final)) ∧
        IsLexeme (.ofTable? table) s.lexeme (Segment.chars after ++ final) s.token.kind
          s.token.value ∧
        (∀ rest kind value, IsLexeme (.ofTable? table) s.lexeme rest kind value →
          kind = s.token.kind ∧ value = s.token.value) ∧
        s.token.place = .behind (Segment.chars before ++ s.gap) := by
  obtain ⟨segments, final, htext, hfinal, hts, hfits⟩ :=
    (tokenize_eq_ok_iff.1 h).exists_segments
  refine ⟨segments, final, htext, hfinal, ?_, ?_, ?_⟩
  · rw [hts, Text.Place.afterAll_origin]
  · intro s hs
    obtain ⟨before, after, hsplit⟩ := List.append_of_mem hs
    exact (hfits before s after hsplit).isLexeme.kind_ne_endOfText
      (Resolver.canonical_ofTable? htable)
  · intro before s after hsplit
    obtain ⟨hgap, hnone, hlexeme, hplace⟩ := hfits before s after hsplit
    refine ⟨hgap, hnone, hlexeme, fun rest kind value h => h.unique hlexeme, ?_⟩
    rw [hplace, Text.Place.afterAll_origin]

/-- A comment, a mark of which no shorter beginning is a mark, a literal with a line feed in it, and
an alias behind it. -/
theorem tokenize_partitions_text_raw_line_feed :
    ∃ (segments : List Segment) (final : List Char),
      "# a\n!<='\n' var ".toList = Segment.chars segments ++ final ∧
      segments.map Segment.token = [⟨.predicate .notSubset, .text "!<=", ⟨2, 1⟩⟩,
        ⟨.testedChar, .text "\n", ⟨2, 4⟩⟩, ⟨.percent, .text "var", ⟨3, 3⟩⟩] := by
  have htokens : tokenize (.ofTable? (some .canonical)) "# a\n!<='\n' var ".toList =
      .ok ([⟨.predicate .notSubset, .text "!<=", ⟨2, 1⟩⟩, ⟨.testedChar, .text "\n", ⟨2, 4⟩⟩,
        ⟨.percent, .text "var", ⟨3, 3⟩⟩] ++ [.endAt ⟨3, 7⟩]) := by rfl
  obtain ⟨segments, final, htext, -, hts, -⟩ := tokenize_partitions_text _
    (fun _ => AliasTable.reachable_of_mem_some_canonical) _ _ htokens
  exact ⟨segments, final, htext, (List.append_inj_left' hts rfl).symm⟩

end SetLang
