import SetLang.Proofs.Grammar.OnDemand
import SetLang.Proofs.Program.Accepted
import SetLang.Proofs.Token.Partition

/-!
# Source texts of programs

Every program whose literals are natural numbers that fit decimal text has a source text: its tokens
one after the other, each behind a blank. Main statement: the trees that a text can be parsed to are
exactly the well-formed ones.
-/

namespace SetLang

open Phrase (words)

/-! ## Pieces of source texts -/

/-- A piece of a source text is a lexeme with the kind and the value of its token. -/
structure SourcePiece where
  chars : List Char
  kind : TokenKind
  value : Value

namespace SourcePiece

/-- A mark of one character. -/
def mark (kind : TokenKind) (c : Char) : SourcePiece :=
  ⟨[c], kind, .text (String.ofList [c])⟩

/-- A character as it stands between quotes: the quote and the backslash are escaped. -/
def literalChars (quote c : Char) : List Char :=
  if c = quote ∨ c = '\\' then ['\\', c] else [c]

/-- A character literal. -/
def literal (kind : TokenKind) (quote c : Char) : SourcePiece :=
  ⟨quote :: (literalChars quote c ++ [quote]), kind, charValue c⟩

/-- The text of some pieces. -/
def text (pieces : List SourcePiece) : List Char :=
  pieces.flatMap fun p => ' ' :: p.chars

end SourcePiece

/-- The mark that a predicate is written as. -/
def Predicate.mark : Predicate → Char
  | subset => '⊆'
  | properSubset => '⊂'
  | notSubset => '⊄'
  | superset => '⊇'
  | properSuperset => '⊃'
  | notSuperset => '⊅'
  | equal => '='

/-- The mark that a set operator is written as. -/
def SetOperator.mark : SetOperator → Char
  | union => '∪'
  | intersection => '∩'
  | leftDifference => '∖'
  | rightDifference => '∸'

/-- The piece of an expression. -/
def Expr.piece : Expr → SourcePiece
  | literal n => ⟨Nat.toDigits 10 n.toNat, .integer, .int n⟩
  | percent => .mark .percent '%'

/-- Expressions with a comma before each. -/
def commaPieces : List Expr → List SourcePiece
  | [] => []
  | e :: rest => .mark .comma ',' :: e.piece :: commaPieces rest

/-- The pieces of a set. -/
def setPieces : List Expr → List SourcePiece
  | [] => [.mark .leftBrace '\x7b', .mark .rightBrace '\x7d']
  | e :: rest =>
    .mark .leftBrace '\x7b' :: e.piece :: (commaPieces rest ++ [.mark .rightBrace '\x7d'])

mutual

/-- The pieces of a statement. -/
def Statement.pieces : Statement → List SourcePiece
  | .flip e => [.mark .asterisk '*', e.piece]
  | .put c => [.literal .quotedChar '"' c]
  | .apply o es => .mark (.operator o) o.mark :: setPieces es
  | .loop p es body =>
    .mark (.predicate p) p.mark ::
      (setPieces es ++
        .mark .leftBracket '[' :: (statementPieces body ++ [.mark .rightBracket ']']))
  | .test c body =>
    .literal .testedChar '\'' c ::
      .mark .slash '/' :: (statementPieces body ++ [.mark .backslash '\\'])
  | .complement => [.mark .complement 'c']
  | .increment => [.mark .semicolon ';']
  | .read => [.mark .tilde '~']

/-- The pieces of some statements. -/
def statementPieces : List Statement → List SourcePiece
  | [] => []
  | s :: rest => s.pieces ++ statementPieces rest

end

/-- The source text of a program. -/
def Program.source (program : Program) : List Char :=
  SourcePiece.text (statementPieces program)

/-! ## Derivations of source texts -/

/-- The production of an expression. -/
def Expr.phrase : Expr → ExprPhrase
  | literal _ => .integer
  | percent => .percent

/-- The production of a set. -/
def setPhrase : List Expr → SetPhrase
  | [] => .emptyBraces
  | e :: rest => .braces e.phrase (rest.map Expr.phrase)

mutual

/-- The derivation of a statement. -/
def Statement.phrase : Statement → Phrase
  | .flip e => .flip e.phrase
  | .put _ => .put
  | .apply o es => .apply o (setPhrase es)
  | .loop p es body => .loop p (setPhrase es) (statementPhrases body)
  | .test _ body => .test (statementPhrases body)
  | .complement => .complement
  | .increment => .semicolon
  | .read => .tilde

/-- The derivations of some statements. -/
def statementPhrases : List Statement → List Phrase
  | [] => []
  | s :: rest => s.phrase :: statementPhrases rest

end

/-- The piece of an expression has the kind that its phrase asks for. -/
theorem Expr.kind_piece (e : Expr) : e.piece.kind = e.phrase.kind := by
  cases e <;> rfl

/-- The pieces of the elements of a set have the kinds of their derivation. -/
theorem map_kind_commaPieces (es : List Expr) :
    (commaPieces es).map SourcePiece.kind = ExprPhrase.commaWord (es.map Expr.phrase) := by
  induction es with
  | nil => rfl
  | cons e es ih =>
    rw [commaPieces, List.map_cons, List.map_cons, ih, e.kind_piece]
    rfl

/-- The pieces of a set have the kinds of its derivation. -/
theorem map_kind_setPieces (es : List Expr) :
    (setPieces es).map SourcePiece.kind = (setPhrase es).word := by
  cases es with
  | nil => rfl
  | cons e es =>
    rw [setPieces, List.map_cons, List.map_cons, List.map_append, map_kind_commaPieces,
      e.kind_piece]
    rfl

mutual

/-- The kinds of the pieces are the word of the derivation. -/
theorem Statement.map_kind_pieces : ∀ s : Statement, s.pieces.map SourcePiece.kind = s.phrase.word
  | .flip e => by
    rw [Statement.pieces, List.map_cons, List.map_singleton, e.kind_piece]
    rfl
  | .apply o es => by
    rw [Statement.pieces, List.map_cons, map_kind_setPieces]
    rfl
  | .loop p es body => by
    rw [Statement.pieces, List.map_cons, List.map_append, List.map_cons, List.map_append,
      map_kind_setPieces, map_kind_statementPieces body]
    rfl
  | .test c body => by
    rw [Statement.pieces, List.map_cons, List.map_cons, List.map_append,
      map_kind_statementPieces body]
    rfl
  | .put _ | .complement | .increment | .read => rfl

/-- The pieces of statements have the kinds of their derivation. -/
theorem map_kind_statementPieces : ∀ ss : List Statement,
    (statementPieces ss).map SourcePiece.kind = words (statementPhrases ss)
  | [] => rfl
  | s :: rest => by
    rw [statementPieces, List.map_append, s.map_kind_pieces, map_kind_statementPieces rest]
    rfl

end

/-- A token with the value of an expression has the tree of the expression. -/
theorem Expr.tree_phrase (e : Expr) {t : Token} (ht : t.value = e.piece.value)
    (rest : List Token) : e.phrase.tree (t :: rest) = e.toNode := by
  cases e with
  | literal n =>
    rw [phrase, ExprPhrase.tree, firstValue, ht]
    rfl
  | percent => rfl

/-- Tokens with the values of some elements have the trees of the elements. -/
theorem trees_map_phrase (e : Expr) (es : List Expr) {read : List Token} (rest : List Token)
    (hread : read.map Token.value = (e.piece :: commaPieces es).map SourcePiece.value) :
    ExprPhrase.trees (e.phrase :: es.map Expr.phrase) (read ++ rest) =
      (e :: es).map Expr.toNode := by
  induction es generalizing e read with
  | nil =>
    obtain ⟨t, rfl, ht⟩ := List.map_eq_singleton_iff.1 hread
    rw [List.map_nil, ExprPhrase.trees, ExprPhrase.trees, List.singleton_append, e.tree_phrase ht]
    rfl
  | cons e' es ih =>
    obtain ⟨t, read, rfl, ht, hread⟩ := List.map_eq_cons_iff.1 hread
    obtain ⟨c, read, rfl, -, hread⟩ := List.map_eq_cons_iff.1 hread
    have hmore := ih e' hread
    rw [ExprPhrase.trees, List.cons_append, e.tree_phrase ht, List.map_cons, List.map_cons, ← hmore]
    rfl

/-- Tokens with the values of a set have the tree of the set. -/
theorem tree_setPhrase (es : List Expr) {read : List Token} (rest : List Token)
    (hread : read.map Token.value = (setPieces es).map SourcePiece.value) :
    (setPhrase es).tree (read ++ rest) = setToNode es := by
  cases es with
  | nil => rfl
  | cons e es =>
    obtain ⟨b, read, rfl, -, hread⟩ := List.map_eq_cons_iff.1 hread
    rw [← List.cons_append, List.map_append] at hread
    obtain ⟨elements, close, rfl, helements, -⟩ := List.map_eq_append_iff.1 hread
    have htrees := trees_map_phrase e es (close ++ rest) helements
    rw [setToNode, ← htrees, setPhrase, SetPhrase.tree]
    simp

/-- Tokens with the values of some pieces are as many as the pieces. -/
theorem length_eq_of_map_value {read : List Token} {pieces : List SourcePiece}
    {word : List TokenKind} (hread : read.map Token.value = pieces.map SourcePiece.value)
    (hword : pieces.map SourcePiece.kind = word) : word.length = read.length := by
  rw [← hword, List.length_map, ← List.length_map (f := Token.value), hread, List.length_map]

mutual

/-- The tree of the derivation over tokens with the values of the pieces is the tree of the
statement. -/
theorem Statement.tree_phrase : ∀ (s : Statement) {read : List Token} (rest : List Token),
    read.map Token.value = s.pieces.map SourcePiece.value → s.phrase.tree (read ++ rest) = s.toNode
  | .flip e, read, rest, hread => by
    obtain ⟨a, read, rfl, -, hread⟩ := List.map_eq_cons_iff.1 hread
    obtain ⟨t, rfl, ht⟩ := List.map_eq_singleton_iff.1 hread
    rw [Statement.phrase, Statement.toNode, ← e.tree_phrase ht rest]
    rfl
  | .put c, read, rest, hread => by
    obtain ⟨t, rfl, ht⟩ := List.map_eq_singleton_iff.1 hread
    rw [Statement.phrase, Phrase.tree, List.singleton_append, firstValue, ht]
    rfl
  | .apply o es, read, rest, hread => by
    obtain ⟨a, read, rfl, -, hread⟩ := List.map_eq_cons_iff.1 hread
    rw [Statement.phrase, Statement.toNode, ← tree_setPhrase es rest hread]
    rfl
  | .loop p es body, read, rest, hread => by
    obtain ⟨a, read, rfl, -, hread⟩ := List.map_eq_cons_iff.1 hread
    rw [List.map_append] at hread
    obtain ⟨set, read, rfl, hset, hread⟩ := List.map_eq_append_iff.1 hread
    obtain ⟨b, read, rfl, -, hread⟩ := List.map_eq_cons_iff.1 hread
    rw [List.map_append] at hread
    obtain ⟨inner, close, rfl, hinner, -⟩ := List.map_eq_append_iff.1 hread
    have hlength := length_eq_of_map_value hset (map_kind_setPieces es)
    rw [Statement.phrase, Statement.toNode,
      ← tree_setPhrase es (b :: (inner ++ close) ++ rest) hset,
      ← trees_statementPhrases body (close ++ rest) hinner, Phrase.tree]
    simp [hlength]
  | .test c body, read, rest, hread => by
    obtain ⟨a, read, rfl, ha, hread⟩ := List.map_eq_cons_iff.1 hread
    obtain ⟨b, read, rfl, -, hread⟩ := List.map_eq_cons_iff.1 hread
    rw [List.map_append] at hread
    obtain ⟨inner, close, rfl, hinner, -⟩ := List.map_eq_append_iff.1 hread
    have hvalue : a.value = charValue c := ha
    rw [Statement.phrase, Statement.toNode, ← hvalue,
      ← trees_statementPhrases body (close ++ rest) hinner, Phrase.tree]
    simp [firstValue]
  | .complement, _, _, _ => rfl
  | .increment, _, _, _ => rfl
  | .read, _, _, _ => rfl

/-- Tokens with the values of some statements have the trees of the statements. -/
theorem trees_statementPhrases : ∀ (ss : List Statement) {read : List Token} (rest : List Token),
    read.map Token.value = (statementPieces ss).map SourcePiece.value →
    Phrase.trees (statementPhrases ss) (read ++ rest) = toNodes ss
  | [], _, _, _ => rfl
  | s :: ss, read, rest, hread => by
    rw [statementPieces, List.map_append] at hread
    obtain ⟨first, more, rfl, hfirst, hmore⟩ := List.map_eq_append_iff.1 hread
    have hlength := length_eq_of_map_value hfirst s.map_kind_pieces
    rw [statementPhrases, toNodes, ← s.tree_phrase (more ++ rest) hfirst,
      ← trees_statementPhrases ss rest hmore, Phrase.trees]
    simp [hlength]

end

/-! ## Source texts are cut into their pieces -/

/-- A piece begins no gap, and it is a lexeme wherever a blank or the end of the text is behind
it. -/
structure SourcePiece.Reads (resolve : Resolver) (p : SourcePiece) : Prop where
  beginsNoGap : BeginsNoGap p.chars
  isLexeme : ∀ rest : List Char, (∀ c ∈ rest.head?, c = ' ') →
    IsLexeme resolve p.chars rest p.kind p.value

/-- A character is the mark of a kind if it is spelled like that and begins nothing else. -/
def IsMark (kind : TokenKind) (c : Char) : Prop :=
  IsSymbol c ∧ spelled? (String.ofList [c]) = some kind ∧ Text.isBlank c = false ∧ c ≠ '#'

instance (kind : TokenKind) (c : Char) : Decidable (IsMark kind c) :=
  inferInstanceAs (Decidable (_ ∧ _))

theorem Predicate.isMark_mark (p : Predicate) : IsMark (.predicate p) p.mark := by
  cases p <;> decide

theorem SetOperator.isMark_mark (o : SetOperator) : IsMark (.operator o) o.mark := by
  cases o <;> decide

namespace SourcePiece

variable {resolve : Resolver} {kind : TokenKind} {c : Char}

/-- A mark is read as its kind, whatever follows. -/
theorem reads_mark (h : IsMark kind c) : (mark kind c).Reads resolve := by
  obtain ⟨hsymbol, hspelled, hblank, hsign⟩ := h
  refine ⟨?_, fun rest hrest => .mark hsymbol ⟨hspelled, ?_⟩⟩
  · intro d hd
    obtain rfl : c = d := Option.some.inj hd
    exact ⟨hblank, hsign⟩
  · -- a longer spelling would have a blank in it
    have hall : ∀ p ∈ spellings, ' ' ∉ p.1.toList := by decide
    intro y hy hprefix
    obtain ⟨kind', hkind⟩ := Option.isSome_iff_exists.1 hy
    have hnone := hall _ (mem_spellings_of_spelled? hkind)
    rw [String.toList_ofList] at hnone
    obtain ⟨tail, htail⟩ := hprefix
    match y, hnone, htail with
    | [], _, _ => simp
    | [_], _, _ => simp
    | _ :: d :: y, hnone, htail =>
      rw [List.cons_append, List.cons_append, List.singleton_append] at htail
      have hd := hrest d (by rw [← (List.cons.inj htail).2]; rfl)
      simp [hd] at hnone

theorem reads_complement : (mark .complement 'c').Reads resolve := by
  refine ⟨?_, fun rest hrest => .word (by decide) (by simp) ?_ (.spelled (by decide))⟩
  · intro d hd
    obtain rfl : 'c' = d := Option.some.inj hd
    decide
  · intro d hd
    rw [hrest d hd]
    decide

/-- The body that is written for a character is that of a literal. -/
theorem isLiteralBody_literalChars {quote : Char} (hquote : escaped? quote = some quote)
    (c : Char) : IsLiteralBody quote (literalChars quote c) c := by
  unfold literalChars
  split
  · next h =>
    rcases h with rfl | rfl
    · exact .escape hquote
    · exact .escape (by decide)
  · next h => exact .plain (fun hc => h (.inl hc)) fun hc => h (.inr hc)

/-- A quoted character is read as it is written. -/
theorem reads_quoted (c : Char) : (literal .quotedChar '"' c).Reads resolve := by
  refine ⟨?_, fun rest _ => .quoted (isLiteralBody_literalChars (by decide) c)⟩
  intro d hd
  obtain rfl : '"' = d := Option.some.inj hd
  decide

/-- A tested character is read as it is written. -/
theorem reads_tested (c : Char) : (literal .testedChar '\'' c).Reads resolve := by
  refine ⟨?_, fun rest _ => .tested (isLiteralBody_literalChars (by decide) c)⟩
  intro d hd
  obtain rfl : '\'' = d := Option.some.inj hd
  decide

end SourcePiece

theorem isBlank_eq_false_of_isDigit {c : Char} (h : isDigit c = true) :
    Text.isBlank c = false := by
  have hall : ∀ c ∈ "0123456789".toList, Text.isBlank c = false := forall_mem_of_all (by decide)
  exact hall c (mem_of_isDigit h)

/-- The piece of a natural number that fits decimal text. -/
theorem SourcePiece.reads_toDigits {resolve : Resolver} {n : Nat} (h : Integer.FitsDecimal n) :
    Reads resolve ⟨Nat.toDigits 10 n, .integer, .int n⟩ := by
  have hdigits : ∀ c ∈ Nat.toDigits 10 n, isDigit c = true := fun c => isDigit_of_mem_toDigits
  have hlength : (Nat.toDigits 10 n).length ≤ decimalDigitLimit :=
    length_toDigits_le (by decide) h
  have hvalue := natOfDigits_toDigits n
  refine ⟨?_, fun rest hrest => ?_⟩
  · intro c hc
    have hdigit := hdigits c (List.mem_of_mem_head? hc)
    refine ⟨isBlank_eq_false_of_isDigit hdigit, ?_⟩
    rintro rfl
    exact absurd hdigit (by decide)
  · obtain ⟨c, more, hcons⟩ := List.exists_cons_of_ne_nil (Nat.toDigits_ne_nil (n := n) (b := 10))
    rw [hcons] at hdigits hlength hvalue ⊢
    have hend : ∀ d ∈ rest.head?, isDigit d = false := by
      intro d hd
      rw [hrest d hd]
      decide
    have hinteger : IsLexeme resolve (c :: more) rest .integer (.int (natOfDigits (c :: more))) :=
      .integer hdigits hend hlength
    rwa [hvalue] at hinteger

section

variable {resolve : Resolver}

/-- An expression that fits decimal text is read as it is written. -/
theorem Expr.reads_piece {e : Expr} (h : e.Fits) : e.piece.Reads resolve := by
  cases e with
  | percent => exact SourcePiece.reads_mark (by decide)
  | literal n =>
    obtain ⟨hn, hfit⟩ := h
    obtain ⟨m, rfl⟩ := Int.eq_ofNat_of_zero_le hn
    exact SourcePiece.reads_toDigits hfit

theorem reads_of_mem_commaPieces {es : List Expr} (h : ∀ e ∈ es, e.Fits) :
    ∀ p ∈ commaPieces es, p.Reads resolve := by
  induction es with
  | nil => exact List.forall_mem_nil _
  | cons e es ih =>
    obtain ⟨he, hes⟩ := List.forall_mem_cons.1 h
    exact List.forall_mem_cons.2 ⟨SourcePiece.reads_mark (by decide),
      List.forall_mem_cons.2 ⟨e.reads_piece he, ih hes⟩⟩

/-- The pieces of a set are read as they are written. -/
theorem reads_of_mem_setPieces {es : List Expr} (h : ∀ e ∈ es, e.Fits) :
    ∀ p ∈ setPieces es, p.Reads resolve := by
  have hleft : (SourcePiece.mark .leftBrace '\x7b').Reads resolve :=
    SourcePiece.reads_mark (by decide)
  have hright : ∀ p ∈ [SourcePiece.mark .rightBrace '\x7d'], p.Reads resolve :=
    List.forall_mem_singleton.2 (SourcePiece.reads_mark (by decide))
  cases es with
  | nil => exact List.forall_mem_cons.2 ⟨hleft, hright⟩
  | cons e es =>
    obtain ⟨he, hes⟩ := List.forall_mem_cons.1 h
    exact List.forall_mem_cons.2 ⟨hleft, List.forall_mem_cons.2 ⟨e.reads_piece he,
      List.forall_mem_append.2 ⟨reads_of_mem_commaPieces hes, hright⟩⟩⟩

mutual

/-- The pieces of a statement are lexemes, as long as its literals fit. -/
theorem Statement.reads_of_mem_pieces : ∀ {s : Statement}, s.Fits →
    ∀ p ∈ s.pieces, p.Reads resolve
  | .flip e, h => List.forall_mem_cons.2
    ⟨SourcePiece.reads_mark (by decide), List.forall_mem_singleton.2 (e.reads_piece h)⟩
  | .put c, _ => List.forall_mem_singleton.2 (SourcePiece.reads_quoted c)
  | .apply o _, h => List.forall_mem_cons.2
    ⟨SourcePiece.reads_mark o.isMark_mark, reads_of_mem_setPieces h⟩
  | .loop p _ body, h => List.forall_mem_cons.2
    ⟨SourcePiece.reads_mark p.isMark_mark, List.forall_mem_append.2
      ⟨reads_of_mem_setPieces h.1, List.forall_mem_cons.2
        ⟨SourcePiece.reads_mark (by decide), List.forall_mem_append.2
          ⟨reads_of_mem_statementPieces h.2,
            List.forall_mem_singleton.2 (SourcePiece.reads_mark (by decide))⟩⟩⟩⟩
  | .test c body, h => List.forall_mem_cons.2
    ⟨SourcePiece.reads_tested c, List.forall_mem_cons.2
      ⟨SourcePiece.reads_mark (by decide), List.forall_mem_append.2
        ⟨reads_of_mem_statementPieces h,
          List.forall_mem_singleton.2 (SourcePiece.reads_mark (by decide))⟩⟩⟩
  | .complement, _ => List.forall_mem_singleton.2 SourcePiece.reads_complement
  | .increment, _ => List.forall_mem_singleton.2 (SourcePiece.reads_mark (by decide))
  | .read, _ => List.forall_mem_singleton.2 (SourcePiece.reads_mark (by decide))

/-- The pieces of statements are read as they are written. -/
theorem reads_of_mem_statementPieces : ∀ {ss : List Statement}, StatementsFit ss →
    ∀ p ∈ statementPieces ss, p.Reads resolve
  | [], _ => List.forall_mem_nil _
  | _ :: _, h => List.forall_mem_append.2
    ⟨Statement.reads_of_mem_pieces h.1, reads_of_mem_statementPieces h.2⟩

end

end

/-- Behind a piece there is a blank or the end of the text. -/
theorem SourcePiece.eq_of_mem_head?_text {pieces : List SourcePiece} {c : Char}
    (h : c ∈ (text pieces).head?) : c = ' ' := by
  cases pieces with
  | nil => cases h
  | cons p pieces => exact (Option.some.inj h).symm

/-- A source text is cut into tokens of the kinds and the values of its pieces. -/
theorem SourcePiece.exists_tokenized_text {resolve : Resolver} {pieces : List SourcePiece}
    (h : ∀ p ∈ pieces, p.Reads resolve) (place : Text.Place) :
    ∃ ts last, Tokenized resolve place (text pieces) (ts ++ [.endAt last]) ∧
      ts.map Token.kind = pieces.map kind ∧ ts.map Token.value = pieces.map value := by
  induction pieces generalizing place with
  | nil => exact ⟨[], _, .done (.nil []), rfl, rfl⟩
  | cons p pieces ih =>
    obtain ⟨⟨hbegins, hlexeme⟩, hpieces⟩ := List.forall_mem_cons.1 h
    obtain ⟨ts, last, htokenized, hkinds, hvalues⟩ :=
      ih hpieces (place.afterAll ([' '] ++ p.chars))
    have hx := hlexeme (text pieces) fun c => eq_of_mem_head?_text
    have hnone : BeginsNoGap (p.chars ++ text pieces) := by
      intro c hc
      rw [List.head?_append_of_ne_nil _ hx.ne_nil] at hc
      exact hbegins c hc
    have hgap : IsGap [' '] (p.chars ++ text pieces) := .blank (by decide) (.nil _)
    exact ⟨⟨p.kind, p.value, place.afterAll [' ']⟩ :: ts, last,
      .lexeme hgap hnone hx rfl htokenized, congrArg (p.kind :: ·) hkinds,
      congrArg (p.value :: ·) hvalues⟩

/-! ## Source texts are parsed to their trees -/

/-- A list of tokens with a derivation and the end mark behind it is parsed to the tree of the
derivation. -/
theorem parseFeed_ofTokens_of_words {ts : List Token} {ds : List Phrase} {last : Text.Place}
    (hwords : words ds = ts.map Token.kind) :
    parseFeed (.ofTokens (ts ++ [.endAt last])) = .ok (Phrase.programTree ds ts) := by
  have hbefore : Token.beforeEnd (ts ++ [.endAt last]) = ts := by
    have hkinds : ∀ t ∈ ts, decide (t.kind ≠ .endOfText) = true := by
      intro t ht
      have hnone := Phrase.endOfText_notMem_words ds
      rw [hwords] at hnone
      rw [decide_eq_true_iff]
      intro hkind
      exact hnone (hkind ▸ List.mem_map_of_mem ht)
    rw [Token.beforeEnd, List.takeWhile_append_of_pos hkinds]
    simp [Token.endAt]
  obtain ⟨q, houtcome⟩ := Parser.exists_outcome_parseFeed (ts ++ [.endAt last])
  generalize parseFeed (.ofTokens (ts ++ [.endAt last])) = result at houtcome ⊢
  cases houtcome with
  | accepted ds' q hwords' =>
    rw [hbefore] at hwords' ⊢
    rw [Phrase.words_injective (hwords'.trans hwords.symm)]
  | rejected read t rest demand q hserved hlength _ hnot =>
    refine absurd ?_ (Parser.words_ne_of_rejected hserved hlength hnot ds)
    rw [hbefore, hwords]

/-- The source text of a program is parsed to its tree, whatever words stand for. -/
theorem Program.parseText_source (resolve : Resolver) {program : Program}
    (h : StatementsFit program) : parseText resolve program.source = .ok program.toNode := by
  have hreads : ∀ p ∈ statementPieces program, p.Reads resolve := reads_of_mem_statementPieces h
  obtain ⟨ts, last, htokenized, hkinds, hvalues⟩ := SourcePiece.exists_tokenized_text hreads .origin
  have hwords := (hkinds.trans (map_kind_statementPieces program)).symm
  have htrees := trees_statementPhrases program [] hvalues
  rw [List.append_nil] at htrees
  rw [parseText, source, Feed.ofText_eq_ofTokens (tokenize_eq_ok_iff.2 htokenized),
    parseFeed_ofTokens_of_words hwords, Phrase.programTree, htrees, toNode]

/-- The trees that texts are parsed to are exactly the well-formed ones: whatever words stand for, a
tree that comes of a text is well formed, and every well-formed tree comes of a text without
aliases. -/
theorem parseText_trees_iff_wellFormed :
    (∀ table : Option AliasTable, (∀ t ∈ table, t.Reachable) → ∀ text tree,
      parseText (.ofTable? table) text = .ok tree → tree.IsWellFormed) ∧
    ∀ tree : Node, tree.IsWellFormed → ∃ text, parseText (.ofTable? none) text = .ok tree := by
  refine ⟨fun table htable text tree h => ?_, fun tree h => ?_⟩
  · exact isWellFormed_of_parseText (Resolver.canonical_ofTable? htable) h
  · obtain ⟨program, hfits, rfl⟩ := h.exists_program
    exact ⟨program.source, Program.parseText_source _ hfits⟩

/-- A character test of a line feed around a flip, from a text with an alias, is the tree of a text
without one. -/
theorem parseText_trees_iff_wellFormed_test :
    parseText (.ofTable? (some .canonical)) "'\n'/flip 7\\".toList =
      .ok (.mk .program .absent [.mk .charTest (.text "\n")
        [.mk .flip .absent [.mk .integer (.int 7) []]]]) ∧
    ∃ text, parseText (.ofTable? none) text =
      .ok (.mk .program .absent [.mk .charTest (.text "\n")
        [.mk .flip .absent [.mk .integer (.int 7) []]]]) := by
  have hparse : parseText (.ofTable? (some .canonical)) "'\n'/flip 7\\".toList =
      .ok (.mk .program .absent [.mk .charTest (.text "\n")
        [.mk .flip .absent [.mk .integer (.int 7) []]]]) := by rfl
  have hwellFormed := parseText_trees_iff_wellFormed.1 (some .canonical)
    (fun _ => AliasTable.reachable_of_mem_some_canonical) _ _ hparse
  exact ⟨hparse, parseText_trees_iff_wellFormed.2 _ hwellFormed⟩

end SetLang
