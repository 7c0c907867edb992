import SetLang.Tree.Parser

/-!
# `Phrase`: derivation trees of the grammar

The grammar of programs, apart from any way to parse them. A derivation tree says which production
stands at each place. It has

* a word, the kinds of tokens that it derives, read from left to right;
* a tree over tokens: where a production has a literal, the node takes the value of the token there.

The grammar is unambiguous: a word has at most one derivation (`Phrase.words_injective`). The reason
is that no phrase is a proper beginning of another one, and that what ends a list of statements never
begins a statement.
-/

namespace SetLang

/-! ## Productions -/

/-- An expression is an integer or the variable. -/
inductive ExprPhrase where
  | integer
  | percent
deriving DecidableEq, Repr

/-- A set is the empty-set mark, or braces around nothing, or braces around expressions with commas
between them. -/
inductive SetPhrase where
  | mark
  | emptyBraces
  | braces (first : ExprPhrase) (more : List ExprPhrase)
deriving DecidableEq, Repr

/-- A statement. A loop and a character test have statements inside. -/
inductive Phrase where
  | flip (element : ExprPhrase)
  | put
  | loop (predicate : Predicate) (guard : SetPhrase) (body : List Phrase)
  | apply (operator : SetOperator) (operand : SetPhrase)
  | complement
  | colon
  | semicolon
  | tilde
  | test (body : List Phrase)

/-! ## Words -/

/-- The kind of token that an expression is. -/
def ExprPhrase.kind : ExprPhrase → TokenKind
  | integer => .integer
  | percent => .percent

/-- Expressions with a comma before each. -/
def ExprPhrase.commaWord : List ExprPhrase → List TokenKind
  | [] => []
  | e :: rest => .comma :: e.kind :: commaWord rest

/-- The word of a set. -/
def SetPhrase.word : SetPhrase → List TokenKind
  | mark => [.emptySet]
  | emptyBraces => [.leftBrace, .rightBrace]
  | braces first more => .leftBrace :: first.kind :: (ExprPhrase.commaWord more ++ [.rightBrace])

namespace Phrase

mutual

/-- The word of a statement. -/
def word : Phrase → List TokenKind
  | flip element => [.asterisk, element.kind]
  | put => [.quotedChar]
  | loop predicate guard body =>
    .predicate predicate :: (guard.word ++ .leftBracket :: (words body ++ [.rightBracket]))
  | apply operator operand => .operator operator :: operand.word
  | complement => [.complement]
  | colon => [.colon]
  | semicolon => [.semicolon]
  | tilde => [.tilde]
  | test body => .testedChar :: .slash :: (words body ++ [.backslash])

/-- The word of some statements. -/
def words : List Phrase → List TokenKind
  | [] => []
  | d :: rest => word d ++ words rest

end

end Phrase

/-! ## Trees over tokens -/

/-- The value of the first of some tokens. -/
def firstValue : List Token → Value
  | [] => .absent
  | t :: _ => t.value

/-- The tree of an expression over the tokens from its own on. -/
def ExprPhrase.tree : ExprPhrase → List Token → Node
  | integer, ts => .mk .integer (firstValue ts) []
  | percent, _ => .leaf .percent

/-- The trees of expressions, each of which has one token and one mark after it. -/
def ExprPhrase.trees : List ExprPhrase → List Token → List Node
  | [], _ => []
  | e :: rest, ts => e.tree ts :: trees rest (ts.drop 2)

/-- The tree of a set over the tokens from its first one on. -/
def SetPhrase.tree : SetPhrase → List Token → Node
  | mark, _ => .mk .set .absent []
  | emptyBraces, _ => .mk .set .absent []
  | braces first more, ts => .mk .set .absent (ExprPhrase.trees (first :: more) (ts.drop 1))

namespace Phrase

mutual

/-- The tree of a statement over the tokens from its first one on. -/
def tree : Phrase → List Token → Node
  | flip element, ts => .mk .flip .absent [element.tree (ts.drop 1)]
  | put, ts => .mk .printChar (firstValue ts) []
  | loop predicate guard body, ts =>
    .mk .loop (.text predicate.name)
      (guard.tree (ts.drop 1) :: trees body (ts.drop (guard.word.length + 2)))
  | apply operator operand, ts =>
    .mk .setOperation (.text operator.name) [operand.tree (ts.drop 1)]
  | complement, _ => .leaf .complement
  | colon, _ => .leaf .increment
  | semicolon, _ => .leaf .increment
  | tilde, _ => .leaf .readChar
  | test body, ts => .mk .charTest (firstValue ts) (trees body (ts.drop 2))

/-- The trees of some statements over the tokens from the first one on. -/
def trees : List Phrase → List Token → List Node
  | [], _ => []
  | d :: rest, ts => tree d ts :: trees rest (ts.drop d.word.length)

end

/-- The tree of a program over its tokens. -/
def programTree (ds : List Phrase) (ts : List Token) : Node :=
  .mk .program .absent (trees ds ts)

/-! ## Words of lists -/

@[simp] theorem words_nil : words [] = [] := rfl

@[simp] theorem words_cons (d : Phrase) (ds : List Phrase) :
    words (d :: ds) = d.word ++ words ds := rfl

/-! ## Unique derivations -/

/-- What ends a list of statements: the closing mark of a block, or the end of the text. -/
def EndsStatements (k : TokenKind) : Prop :=
  k = .rightBracket ∨ k = .backslash ∨ k = .endOfText

/-- No statement begins with what ends a list of statements. -/
theorem exists_word_eq_cons (d : Phrase) : ∃ k rest, d.word = k :: rest ∧ ¬ EndsStatements k := by
  cases d <;> exact ⟨_, _, by rw [word], by simp [EndsStatements]⟩

end Phrase

theorem ExprPhrase.kind_injective {e e' : ExprPhrase} (h : e.kind = e'.kind) : e = e' := by
  cases e <;> cases e' <;> first | rfl | exact absurd h (by simp [ExprPhrase.kind])

/-- Expressions between commas are told apart up to the brace that closes them. -/
theorem ExprPhrase.commaWord_append_inj {es es' : List ExprPhrase} {r r' : List TokenKind}
    (h : commaWord es ++ .rightBrace :: r = commaWord es' ++ .rightBrace :: r') :
    es = es' ∧ r = r' := by
  -- where one list ends the other one has no comma, so they end together
  induction es generalizing es' with
  | nil =>
    cases es' with
    | nil => simpa [commaWord] using h
    | cons e' es' => simp [commaWord] at h
  | cons e es ih =>
    cases es' with
    | nil => simp [commaWord] at h
    | cons e' es' =>
      simp only [commaWord, List.cons_append, List.cons.injEq, true_and] at h
      obtain ⟨hkind, hrest⟩ := h
      obtain ⟨rfl, rfl⟩ := ih hrest
      exact ⟨by rw [kind_injective hkind], rfl⟩

/-- No set is a proper beginning of another one. -/
theorem SetPhrase.word_append_inj {s s' : SetPhrase} {r r' : List TokenKind}
    (h : s.word ++ r = s'.word ++ r') : s = s' ∧ r = r' := by
  -- the first two kinds tell the productions apart
  cases s with
  | mark => cases s' <;> simp_all [word]
  | emptyBraces =>
    cases s' with
    | braces first' more' => cases first' <;> simp [word, ExprPhrase.kind] at h
    | _ => simp_all [word]
  | braces first more =>
    cases s' with
    | mark => simp [word] at h
    | emptyBraces => cases first <;> simp [word, ExprPhrase.kind] at h
    | braces first' more' =>
      simp only [word, List.cons_append, List.append_assoc, List.nil_append, List.cons.injEq,
        true_and] at h
      obtain ⟨rfl, rfl⟩ := ExprPhrase.commaWord_append_inj h.2
      exact ⟨by rw [ExprPhrase.kind_injective h.1], rfl⟩

namespace Phrase

mutual

/-- No statement is a proper beginning of another one. -/
theorem word_append_inj : ∀ (d d' : Phrase) {r r' : List TokenKind},
    d.word ++ r = d'.word ++ r' → d = d' ∧ r = r'
  | flip e, d', r, r', h => by
    cases d' <;> simp only [word, List.cons_append, List.nil_append, List.cons.injEq,
      reduceCtorEq, false_and] at h
    exact ⟨by rw [ExprPhrase.kind_injective h.2.1], h.2.2⟩
  | put, d', r, r', h => by cases d' <;> simp_all [word]
  | loop p g body, d', r, r', h => by
    cases d' <;> simp only [word, List.cons_append, List.append_assoc, List.nil_append,
      List.cons.injEq, TokenKind.predicate.injEq, reduceCtorEq, false_and] at h
    obtain ⟨rfl, hset⟩ := h
    obtain ⟨rfl, hbody⟩ := SetPhrase.word_append_inj hset
    -- behind the guard stand the opening bracket and the body
    obtain ⟨rfl, hrest⟩ :=
      words_append_inj body _ (.inl rfl) (.inl rfl) (List.cons.inj hbody).2
    exact ⟨rfl, (List.cons.inj hrest).2⟩
  | apply o s, d', r, r', h => by
    cases d' <;> simp only [word, List.cons_append, List.cons.injEq, TokenKind.operator.injEq,
      reduceCtorEq, false_and] at h
    obtain ⟨rfl, hset⟩ := h
    obtain ⟨rfl, rfl⟩ := SetPhrase.word_append_inj hset
    exact ⟨rfl, rfl⟩
  | complement, d', r, r', h => by cases d' <;> simp_all [word]
  | colon, d', r, r', h => by cases d' <;> simp_all [word]
  | semicolon, d', r, r', h => by cases d' <;> simp_all [word]
  | tilde, d', r, r', h => by cases d' <;> simp_all [word]
  | test body, d', r, r', h => by
    cases d' <;> simp only [word, List.cons_append, List.append_assoc, List.nil_append,
      List.cons.injEq, true_and, reduceCtorEq, false_and] at h
    obtain ⟨rfl, hrest⟩ := words_append_inj body _ (.inr (.inl rfl)) (.inr (.inl rfl)) h
    exact ⟨rfl, (List.cons.inj hrest).2⟩

/-- Lists of statements are told apart up to what ends them. -/
theorem words_append_inj : ∀ (ds ds' : List Phrase) {k k' : TokenKind} {r r' : List TokenKind},
    EndsStatements k → EndsStatements k' → words ds ++ k :: r = words ds' ++ k' :: r' →
    ds = ds' ∧ k :: r = k' :: r'
  | [], [], k, k', r, r', _, _, h => ⟨rfl, h⟩
  -- a list does not end where a statement of the other one begins
  | [], d' :: ds', k, k', r, r', hk, _, h => by
    obtain ⟨first, rest, hword, hfirst⟩ := exists_word_eq_cons d'
    rw [words_cons, hword] at h
    exact absurd ((List.cons.inj h).1 ▸ hk) hfirst
  | d :: ds, [], k, k', r, r', _, hk', h => by
    obtain ⟨first, rest, hword, hfirst⟩ := exists_word_eq_cons d
    rw [words_cons, hword] at h
    exact absurd ((List.cons.inj h).1 ▸ hk') hfirst
  | d :: ds, d' :: ds', k, k', r, r', hk, hk', h => by
    rw [words_cons, words_cons, List.append_assoc, List.append_assoc] at h
    obtain ⟨rfl, hrest⟩ := word_append_inj d d' h
    obtain ⟨rfl, hend⟩ := words_append_inj ds ds' hk hk' hrest
    exact ⟨rfl, hend⟩

end

/-- A word has at most one derivation. -/
theorem words_injective {ds ds' : List Phrase} (h : words ds = words ds') : ds = ds' := by
  -- the end mark ends both lists
  have hend : words ds ++ [.endOfText] = words ds' ++ [.endOfText] := by rw [h]
  exact (words_append_inj ds ds' (.inr (.inr rfl)) (.inr (.inr rfl)) hend).1

end Phrase

end SetLang
