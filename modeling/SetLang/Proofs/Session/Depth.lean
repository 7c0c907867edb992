import SetLang.Proofs.Json.Outline
import SetLang.Proofs.Token.Partition
import SetLang.Session.Entry

/-!
# How deep a text is

The number of blocks that a text leaves open is counted in its tokens. Main statements: if no word
stands for a mark that opens a block, a text opens at most as many blocks as it has such marks, and
a text whose brackets are closed outside its strings leaves no block open.
-/

namespace SetLang

variable {resolve : Resolver} {text x rest : List Char} {kind : TokenKind} {value : Value} {n : Int}

/-! ## Depths of tokens -/

/-- No word stands for a mark that opens a block. -/
def Resolver.OpensNone (resolve : Resolver) : Prop :=
  ∀ word, resolve word ≠ some .leftBracket ∧ resolve word ≠ some .slash

/-- Only a bracket and a slash open a block. -/
theorem depthChange_nonpos (hbracket : kind ≠ .leftBracket) (hslash : kind ≠ .slash) :
    depthChange kind ≤ 0 := by
  unfold depthChange
  split
  · exact absurd rfl hbracket
  · exact absurd rfl hslash
  · decide
  · decide
  · exact Int.le_refl 0

/-- No token opens more than one block. -/
theorem depthChange_le_one (kind : TokenKind) : depthChange kind ≤ 1 := by
  unfold depthChange
  split <;> decide

/-- No alias opens a block, if none stands for a kind that does. -/
theorem Resolver.OpensNone.depthChange_nonpos (h : resolve.OpensNone) {word : String}
    (hword : resolve word = some kind) : depthChange kind ≤ 0 := by
  refine SetLang.depthChange_nonpos ?_ ?_
  · rintro rfl
    exact (h word).1 hword
  · rintro rfl
    exact (h word).2 hword

/-- What some tokens add to the number of open blocks. -/
def depthSum : List Token → Int
  | [] => 0
  | t :: ts => depthChange t.kind + depthSum ts

/-- The depth of a text is that of its tokens. -/
theorem blockDepth_of_tokenize {ts : List Token} (h : tokenize resolve text = .ok ts) :
    blockDepth resolve text = depthSum ts := by
  have hfold : ∀ depth, ts.foldl (fun depth t => depth + depthChange t.kind) depth =
      depth + depthSum ts := by
    clear h
    induction ts with
    | nil => exact fun depth => (Int.add_zero depth).symm
    | cons t ts ih =>
      intro depth
      rw [List.foldl_cons, ih, depthSum, Int.add_assoc]
  rw [blockDepth, h]
  exact (hfold 0).trans (Int.zero_add _)

/-- A text opens no block if its tokens open none. -/
theorem blockDepth_le (hn : 0 ≤ n)
    (h : ∀ ts, Tokenized resolve .origin text ts → depthSum ts ≤ n) :
    blockDepth resolve text ≤ n := by
  cases htokens : tokenize resolve text with
  | error fault =>
    rw [blockDepth, htokens]
    exact hn
  | ok ts =>
    rw [blockDepth_of_tokenize htokens]
    exact h ts (tokenize_eq_ok_iff.1 htokens)

/-- A mark that opens a block has no other spelling. -/
theorem eq_of_spelled? (h : spelled? (String.ofList x) = some kind) :
    depthChange kind ≤ 0 ∨ x = ['['] ∨ x = ['/'] := by
  have hall : ∀ p ∈ spellings, depthChange p.2 ≤ 0 ∨ p.1.toList = ['['] ∨ p.1.toList = ['/'] := by
    decide
  have hspelling := hall _ (mem_spellings_of_spelled? h)
  rwa [String.toList_ofList] at hspelling

/-- A lexeme that opens a block is one of two characters. -/
theorem IsLexeme.eq_of_opens (hresolve : resolve.OpensNone)
    (h : IsLexeme resolve x rest kind value) :
    depthChange kind ≤ 0 ∨ x = ['['] ∨ x = ['/'] := by
  cases h with
  | word _ _ _ hkind =>
    cases hkind with
    | spelled hspelled => exact eq_of_spelled? hspelled
    | aliased _ halias => exact .inl (hresolve.depthChange_nonpos halias)
    | plain => exact .inl (Int.le_refl 0)
  | integer | quoted | tested | unknown => exact .inl (Int.le_refl 0)
  | mark _ hspelling => exact eq_of_spelled? hspelling.1

/-- The number of characters of a text that may open blocks. -/
def openersIn (text : List Char) : Nat :=
  text.count '[' + text.count '/'

/-- The characters that may open a block are counted apart in two texts. -/
@[simp] theorem openersIn_append (text rest : List Char) :
    openersIn (text ++ rest) = openersIn text + openersIn rest := by
  rw [openersIn, openersIn, openersIn, List.count_append, List.count_append]
  omega

/-- A lexeme opens as many blocks as it has characters that may open one, or fewer. -/
theorem IsLexeme.depthChange_le (hresolve : resolve.OpensNone)
    (h : IsLexeme resolve x rest kind value) : depthChange kind ≤ openersIn x := by
  have hone := depthChange_le_one kind
  rcases h.eq_of_opens hresolve with hkind | rfl | rfl
  · omega
  · exact hone
  · exact hone

/-- A text opens at most as many blocks as it has characters that may open one. -/
theorem Tokenized.depthSum_le_openersIn (hresolve : resolve.OpensNone) {p : Text.Place}
    {ts : List Token} (h : Tokenized resolve p text ts) : depthSum ts ≤ openersIn text := by
  induction h with
  | done => exact Int.natCast_nonneg _
  | lexeme _ _ hx _ _ ih =>
    have hle := hx.depthChange_le hresolve
    rw [depthSum, openersIn_append, openersIn_append]
    omega

/-- The depth of a text is at most the number of characters that may open a block. -/
theorem blockDepth_le_openersIn (hresolve : resolve.OpensNone) (text : List Char) :
    blockDepth resolve text ≤ openersIn text :=
  blockDepth_le (Int.natCast_nonneg _) fun _ h => h.depthSum_le_openersIn hresolve

/-! ## Depths of outlines -/

namespace Json

theorem isPlain_of_isBlank {c : Char} (h : Text.isBlank c = true) : IsPlain c :=
  isPlain_of_class (p := Text.isBlank) (by decide) h

theorem isPlain_of_isWordChar {c : Char} (h : isWordChar c = true) : IsPlain c :=
  isPlain_of_class (p := isWordChar) (by decide) h

theorem isPlain_of_isDigit {c : Char} (h : isDigit c = true) : IsPlain c :=
  isPlain_of_class (p := isDigit) (by decide) h

namespace IsOutline

/-- Behind a plain character stands an outline of the same balance. -/
theorem of_plain {c : Char} (h : IsOutline (c :: text) n) (hc : IsPlain c) :
    IsOutline text n := by
  cases h with
  | plain _ htext => exact htext
  | opening | closing | string => exact absurd hc (by decide)

/-- Behind an opening bracket the balance is one less. -/
theorem of_opening (h : IsOutline ('[' :: text) n) : IsOutline text (n - 1) := by
  cases h with
  | plain hc => exact absurd hc (by decide)
  | opening htext => rwa [Int.add_sub_cancel]

/-- Behind a closing bracket the balance is one more. -/
theorem of_closing (h : IsOutline (']' :: text) n) : IsOutline text (n + 1) := by
  cases h with
  | plain hc => exact absurd hc (by decide)
  | closing htext => rwa [Int.sub_add_cancel]

/-- Behind a quotation mark stand the body of a string and an outline. -/
theorem exists_of_quote (h : IsOutline ('"' :: text) n) :
    ∃ body rest, text = body ++ rest ∧ IsStringBody body ∧ IsOutline rest n := by
  cases h with
  | plain hc => exact absurd hc (by decide)
  | string hbody hrest => exact ⟨_, _, rfl, hbody, hrest⟩

/-- No outline begins with a quote, a slash, a backslash or a number sign. -/
theorem not_cons {c : Char} (hc : c ∈ ['\'', '/', '\\', '#']) : ¬IsOutline (c :: text) n := by
  have hmarks : ∀ c ∈ ['\'', '/', '\\', '#'], ¬IsPlain c := forall_mem_of_all (by decide)
  intro h
  cases h with
  | plain hplain => exact hmarks c hc hplain
  | opening | closing | string => exact absurd hc (by decide)

/-- Behind plain characters stands an outline of the same balance. -/
theorem of_plain_append (h : IsOutline (text ++ rest) n) (htext : ∀ c ∈ text, IsPlain c) :
    IsOutline rest n := by
  induction text with
  | nil => exact h
  | cons c text ih =>
    obtain ⟨hc, htext⟩ := List.forall_mem_cons.1 htext
    exact ih (of_plain h hc) htext

/-- Behind a gap stands an outline of the same balance. -/
theorem of_gap_append {g : List Char} (hgap : IsGap g rest) (h : IsOutline (g ++ rest) n) :
    IsOutline rest n := by
  induction hgap with
  | nil => exact h
  | blank hc _ ih => exact ih (h.of_plain (isPlain_of_isBlank hc))
  | comment => exact absurd h (not_cons (by decide))

end IsOutline

/-- A string body that begins with its closing quote is the quote. -/
theorem IsStringBody.eq_of_quote {body : List Char} (hbody : IsStringBody body)
    (h : '"' :: rest = body ++ text) : rest = text := by
  cases hbody with
  | close => exact (List.cons.inj h).2
  | plain hquote => exact absurd (List.cons.inj h).1.symm hquote
  | escape | unicode => exact absurd (List.cons.inj h).1 (by decide)

/-- A character literal that begins a text with a string is all of the string. -/
theorem IsStringBody.eq_of_literal {body literal : List Char} {c : Char}
    (hbody : IsStringBody body) (hliteral : IsLiteralBody '"' literal c)
    (h : literal ++ '"' :: rest = body ++ text) : rest = text := by
  cases hliteral with
  | plain hquote hbackslash =>
    cases hbody with
    | close => exact absurd (List.cons.inj h).1 hquote
    | plain _ _ _ hbody => exact hbody.eq_of_quote (List.cons.inj h).2
    | escape | unicode => exact absurd (List.cons.inj h).1 hbackslash
  | @escape e c hescaped =>
    cases hbody with
    | close => exact absurd (List.cons.inj h).1 (by decide)
    | plain _ hbackslash => exact absurd (List.cons.inj h).1.symm hbackslash
    | escape _ hbody => exact hbody.eq_of_quote (List.cons.inj (List.cons.inj h).2).2
    | unicode =>
      rw [(List.cons.inj (List.cons.inj h).2).1] at hescaped
      cases hescaped

end Json

/-- A fixed spelling is a bracket, or it cannot begin an outline, or it has no part in one. -/
theorem cases_of_spelled? (h : spelled? (String.ofList x) = some kind) :
    x = ['['] ∨ x = [']'] ∨ x = ['/'] ∨ x = ['\\'] ∨ ∀ c ∈ x, Json.IsPlain c := by
  have hall : ∀ p ∈ spellings, p.1.toList = ['['] ∨ p.1.toList = [']'] ∨ p.1.toList = ['/'] ∨
      p.1.toList = ['\\'] ∨ p.1.toList.all (fun c => decide (Json.IsPlain c)) = true := by
    decide
  have hspelling := hall _ (mem_spellings_of_spelled? h)
  rw [String.toList_ofList] at hspelling
  exact hspelling.imp_right (.imp_right (.imp_right (.imp_right forall_mem_of_all)))

/-- A lexeme of an outline opens at most the brackets that it takes off the outline. -/
theorem IsLexeme.exists_isOutline (hresolve : resolve.OpensNone)
    (h : IsLexeme resolve x rest kind value) (houtline : Json.IsOutline (x ++ rest) n) :
    ∃ m, Json.IsOutline rest m ∧ depthChange kind + m ≤ n := by
  -- a lexeme without a part in the outline opens nothing
  have hplain (hx : ∀ c ∈ x, Json.IsPlain c) :
      ∃ m, Json.IsOutline rest m ∧ depthChange kind + m ≤ n := by
    refine ⟨n, houtline.of_plain_append hx, ?_⟩
    rcases h.eq_of_opens hresolve with hkind | rfl | rfl
    · omega
    · exact absurd (hx '[' List.mem_cons_self) (by decide)
    · exact absurd (hx '/' List.mem_cons_self) (by decide)
  cases h with
  | word hstart hmore _ _ =>
    exact hplain (List.forall_mem_cons.2
      ⟨Json.isPlain_of_isWordChar (isWordChar_of_isWordStart hstart),
        fun c hc => Json.isPlain_of_isWordChar (hmore c hc)⟩)
  | integer hdigits => exact hplain fun c hc => Json.isPlain_of_isDigit (hdigits c hc)
  | quoted hliteral =>
    obtain ⟨body, after, hsplit, hbody, hafter⟩ := houtline.exists_of_quote
    rw [List.append_eq, List.append_assoc] at hsplit
    obtain rfl := hbody.eq_of_literal hliteral hsplit
    exact ⟨n, hafter, Int.le_of_eq (Int.zero_add n)⟩
  | tested => exact absurd houtline (Json.IsOutline.not_cons (by decide))
  | mark _ hspelling =>
    rcases cases_of_spelled? hspelling.1 with hx | hx | hx | hx | hx
    · obtain ⟨rfl, rfl⟩ := List.cons.inj hx
      have hone := depthChange_le_one kind
      exact ⟨n - 1, houtline.of_opening, by omega⟩
    · obtain ⟨rfl, rfl⟩ := List.cons.inj hx
      obtain rfl : TokenKind.rightBracket = kind := Option.some.inj hspelling.1
      exact ⟨n + 1, houtline.of_closing, by show (-1 : Int) + _ ≤ _; omega⟩
    · obtain ⟨rfl, rfl⟩ := List.cons.inj hx
      exact absurd houtline (Json.IsOutline.not_cons (by decide))
    · obtain ⟨rfl, rfl⟩ := List.cons.inj hx
      exact absurd houtline (Json.IsOutline.not_cons (by decide))
    · exact hplain hx
  | @unknown c _ hsymbol hnone =>
    have hall : ∀ c ∈ Json.marks,
        ¬IsSymbol c ∨ (spelled? (String.ofList [c])).isSome ∨ c = '#' :=
      forall_mem_of_all (by decide)
    by_cases hc : c ∈ Json.marks
    · rcases hall c hc with hnot | hspelled | rfl
      · exact absurd hsymbol hnot
      · exact absurd ⟨rest, rfl⟩ (hnone [c] hspelled)
      · exact absurd houtline (Json.IsOutline.not_cons (by decide))
    · exact hplain (List.forall_mem_singleton.2 hc)

/-- The tokens of a text open at most the brackets of its outline. -/
theorem Tokenized.depthSum_le_outline (hresolve : resolve.OpensNone) {p : Text.Place}
    {ts : List Token} (h : Tokenized resolve p text ts) (houtline : Json.IsOutline text n) :
    depthSum ts ≤ n := by
  induction h generalizing n with
  | @done _ g hgap =>
    rw [← List.append_nil g] at houtline
    cases Json.IsOutline.of_gap_append hgap houtline with
    | nil => exact Int.le_refl 0
  | lexeme hgap _ hx _ _ ih =>
    obtain ⟨m, hrest, hle⟩ :=
      hx.exists_isOutline hresolve (Json.IsOutline.of_gap_append hgap houtline)
    have hmore := ih hrest
    rw [depthSum]
    omega

/-- A text whose brackets are closed outside its strings leaves no block open. -/
theorem blockDepth_nonpos_of_isOutline (hresolve : resolve.OpensNone)
    (h : Json.IsOutline text 0) : blockDepth resolve text ≤ 0 :=
  blockDepth_le (Int.le_refl 0) fun _ htokens => htokens.depthSum_le_outline hresolve h

end SetLang
