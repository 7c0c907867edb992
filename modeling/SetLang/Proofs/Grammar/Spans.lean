import SetLang.Proofs.Grammar.Recognition
import SetLang.Session.Entry

/-!
# Where the blocks of a program stand

A loop and a character test have statements inside, between two marks of their own. Each of them has
a span: the node of the tree with the places of the two marks among the tokens. Main statements: the
spans of a derivation are those of the nodes with statements inside, in the order of the tree, and
each of them encloses the statements of its node; and behind every number of tokens as many blocks
are open as the marks so far have opened and not closed.
-/

namespace SetLang

open Phrase (words trees)

/-! ## Spans -/

/-- The marks around the statements inside a node. -/
def NodeKind.marks? : NodeKind → Option (TokenKind × TokenKind)
  | loop => some (.leftBracket, .rightBracket)
  | charTest => some (.slash, .backslash)
  | _ => none

/-- The nodes among some with statements inside. -/
def Node.blocks (nodes : List Node) : List Node :=
  nodes.filter (·.kind.marks?.isSome)

/-- A node with statements inside, and the places of its marks in a list of tokens. -/
structure Span where
  node : Node
  opening : Nat
  closing : Nat

namespace Span

/-- The span behind some more tokens. -/
def shift (count : Nat) (s : Span) : Span :=
  { s with opening := s.opening + count, closing := s.closing + count }

/-- The span of a node with some tokens before its first mark and some inside, and the spans of what
is inside. -/
def around (node : Node) (front inner : Nat) (spans : List Span) : List Span :=
  ⟨node, front, front + inner + 1⟩ :: spans.map (shift (front + 1))

/-- The first mark of a span comes before that of another one. -/
def OpensBefore (s t : Span) : Prop :=
  s.opening < t.opening

/-- Whether the block is open behind some number of tokens: its first mark is among these, and its
last one is not. -/
def IsOpenAfter (s : Span) (count : Nat) : Prop :=
  s.opening < count ∧ count ≤ s.closing

instance (s : Span) (count : Nat) : Decidable (s.IsOpenAfter count) :=
  inferInstanceAs (Decidable (_ ∧ _))

/-- The marks of the node stand at the two places, and the tokens between them are those of the
statements inside the node. -/
def Encloses (s : Span) (ts : List Token) : Prop :=
  ∃ before opening inner closing after ds,
    ts = before ++ opening :: (inner ++ closing :: after) ∧
    before.length = s.opening ∧ before.length + (inner.length + 1) = s.closing ∧
    s.node.kind.marks? = some (opening.kind, closing.kind) ∧
    words ds = inner.map Token.kind ∧ trees ds inner = s.node.body

/-- How many of some blocks are open behind some number of tokens. -/
def openAfter (spans : List Span) (count : Nat) : Nat :=
  spans.countP fun s => decide (s.IsOpenAfter count)

variable {s : Span} {spans : List Span} {node : Node} {ts : List Token} {front inner : Nat}

/-! ## Spans around others -/

/-- The spans of two lists that are open are counted apart. -/
@[simp] theorem openAfter_append (spans spans' : List Span) (count : Nat) :
    openAfter (spans ++ spans') count = openAfter spans count + openAfter spans' count :=
  List.countP_append

/-- A span behind more tokens is open where it was without them. -/
theorem isOpenAfter_shift (n : Nat) (s : Span) (count : Nat) :
    (s.shift n).IsOpenAfter count ↔ s.IsOpenAfter (count - n) := by
  show s.opening + n < count ∧ count ≤ s.closing + n ↔
    s.opening < count - n ∧ count - n ≤ s.closing
  omega

/-- Spans behind more tokens are open where they were without them. -/
theorem openAfter_map_shift (n : Nat) (spans : List Span) (count : Nat) :
    openAfter (spans.map (shift n)) count = openAfter spans (count - n) := by
  rw [openAfter, openAfter, List.countP_map]
  refine List.countP_congr fun s _ => ?_
  rw [Function.comp_apply, decide_eq_true_iff, decide_eq_true_iff, isOpenAfter_shift]

/-- What follows the tokens is not in a span of theirs. -/
theorem Encloses.append_right (h : s.Encloses ts) (rest : List Token) :
    s.Encloses (ts ++ rest) := by
  obtain ⟨before, opening, inner, closing, after, ds, rfl, hopening, hclosing, hmarks, hwords, htrees⟩ := h
  exact ⟨before, opening, inner, closing, after ++ rest, ds, by simp, hopening, hclosing, hmarks,
    hwords, htrees⟩

/-- The two marks are tokens of the list, the one before the other. -/
theorem Encloses.lt (h : s.Encloses ts) : s.opening < s.closing ∧ s.closing < ts.length := by
  obtain ⟨before, opening, inner, closing, after, ds, rfl, hopening, hclosing, -⟩ := h
  rw [List.length_append, List.length_cons, List.length_append, List.length_cons]
  omega

/-- A span is around the same statements when more tokens stand in front. -/
theorem Encloses.shift (h : s.Encloses ts) (front : List Token) :
    (s.shift front.length).Encloses (front ++ ts) := by
  obtain ⟨before, opening, inner, closing, after, ds, rfl, hopening, hclosing, hmarks, hwords, htrees⟩ := h
  refine ⟨front ++ before, opening, inner, closing, after, ds, by simp, ?_, ?_, hmarks, hwords,
    htrees⟩
  · rw [List.length_append, hopening, Nat.add_comm]
    rfl
  · rw [List.length_append, Nat.add_assoc, hclosing, Nat.add_comm]
    rfl

/-- A span around others is one more that is open, from its first mark to its last. -/
theorem openAfter_around (node : Node) (front inner : Nat) (spans : List Span) (count : Nat) :
    openAfter (around node front inner spans) count = openAfter spans (count - (front + 1)) +
      if front < count ∧ count ≤ front + inner + 1 then 1 else 0 := by
  rw [← openAfter_map_shift, around, openAfter, List.countP_cons]
  simp only [decide_eq_true_eq]
  rfl

/-- The nodes of spans stay when more tokens stand in front. -/
theorem map_node_map_shift (n : Nat) (spans : List Span) :
    (spans.map (shift n)).map Span.node = spans.map Span.node := by
  rw [List.map_map]
  rfl

/-- A span around others adds its node in front of theirs. -/
theorem map_node_around (node : Node) (front inner : Nat) (spans : List Span) :
    (around node front inner spans).map Span.node = node :: spans.map Span.node := by
  rw [around, List.map_cons, map_node_map_shift]

/-- Spans inside a block are around their statements in the whole text, and so is the block. -/
theorem encloses_around (before : List Token) {within rest : List Token} {opening closing : Token}
    {ds : List Phrase} (hmarks : node.kind.marks? = some (opening.kind, closing.kind))
    (hwords : words ds = within.map Token.kind) (htrees : trees ds within = node.body)
    (hspans : ∀ s ∈ spans, s.Encloses (within ++ closing :: rest)) :
    ∀ s ∈ around node before.length within.length spans,
      s.Encloses (before ++ opening :: (within ++ closing :: rest)) := by
  refine List.forall_mem_cons.2 ⟨?_, fun s hs => ?_⟩
  · exact ⟨before, opening, within, closing, rest, ds, rfl, rfl, rfl, hmarks, hwords, htrees⟩
  · obtain ⟨t, ht, rfl⟩ := List.mem_map.1 hs
    have hshift := (hspans t ht).shift (before ++ [opening])
    rwa [List.length_append, List.append_assoc] at hshift

/-- A block and the spans inside it open before it is over. -/
theorem opening_lt_of_mem_around (hspans : ∀ s ∈ spans, s.opening < inner) :
    ∀ s ∈ around node front inner spans, s.opening < front + (inner + 2) := by
  refine List.forall_mem_cons.2 ⟨?_, fun s hs => ?_⟩
  · show front < front + (inner + 2)
    omega
  · obtain ⟨t, ht, rfl⟩ := List.mem_map.1 hs
    have hlt := hspans t ht
    show t.opening + (front + 1) < front + (inner + 2)
    omega

/-- No span of a block opens at the first token, if something stands before the block. -/
theorem opening_pos_of_mem_around (hfront : 0 < front) :
    ∀ s ∈ around node front inner spans, 0 < s.opening := by
  refine List.forall_mem_cons.2 ⟨hfront, fun s hs => ?_⟩
  obtain ⟨t, -, rfl⟩ := List.mem_map.1 hs
  exact Nat.add_pos_right t.opening (Nat.succ_pos front)

/-- Spans stay in order when more tokens stand in front. -/
theorem pairwise_map_shift (h : spans.Pairwise OpensBefore) (n : Nat) :
    (spans.map (shift n)).Pairwise OpensBefore :=
  h.map _ fun _ _ hlt => Nat.add_lt_add_right hlt n

/-- A block opens before the spans inside it. -/
theorem pairwise_around (h : spans.Pairwise OpensBefore) :
    (around node front inner spans).Pairwise OpensBefore := by
  refine .cons (fun s hs => ?_) (pairwise_map_shift h (front + 1))
  obtain ⟨t, -, rfl⟩ := List.mem_map.1 hs
  exact Nat.lt_add_left _ (Nat.lt_succ_self front)

end Span

/-! ## Spans of statements -/

namespace Phrase

mutual

/-- The spans of a statement over the tokens from its first one on. -/
def spans : Phrase → List Token → List Span
  | loop predicate guard body, ts =>
    Span.around (tree (loop predicate guard body) ts) (guard.word.length + 1) (words body).length
      (spansAll body (ts.drop (guard.word.length + 2)))
  | test body, ts =>
    Span.around (tree (test body) ts) 1 (words body).length (spansAll body (ts.drop 2))
  | _, _ => []

/-- The spans of some statements over the tokens from the first one on. -/
def spansAll : List Phrase → List Token → List Span
  | [], _ => []
  | d :: rest, ts =>
    spans d ts ++ (spansAll rest (ts.drop d.word.length)).map (Span.shift d.word.length)

end

end Phrase

/-! ## Spans and trees -/

/-- No expression has a block below it. -/
theorem ExprPhrase.blocks_walkAll_trees (es : List ExprPhrase) (ts : List Token) :
    Node.blocks (Node.walkAll (trees es ts)) = [] := by
  induction es generalizing ts with
  | nil => rfl
  | cons e es ih =>
    have hmore := ih (ts.drop 2)
    cases e <;> exact hmore

/-- No set has a block below it. -/
theorem SetPhrase.blocks_walk_tree (s : SetPhrase) (ts : List Token) :
    Node.blocks (s.tree ts).walk = [] := by
  cases s with
  | mark | emptyBraces => rfl
  | braces first more => exact ExprPhrase.blocks_walkAll_trees (first :: more) (ts.drop 1)

/-- The blocks of two lists of nodes are those of the first and then those of the second. -/
@[simp] theorem Node.blocks_append (nodes nodes' : List Node) :
    blocks (nodes ++ nodes') = blocks nodes ++ blocks nodes' :=
  List.filter_append ..

namespace Phrase

mutual

/-- The spans of a statement are those of the blocks of its tree, in the order of the tree. -/
theorem map_node_spans : ∀ (d : Phrase) (ts : List Token),
    (d.spans ts).map Span.node = Node.blocks (d.tree ts).walk
  | loop predicate guard body, ts => by
    have hbody := map_node_spansAll body (ts.drop (guard.word.length + 2))
    have hguard := guard.blocks_walk_tree (ts.drop 1)
    have hwalk : (tree (loop predicate guard body) ts).walk =
        tree (loop predicate guard body) ts :: ((guard.tree (ts.drop 1)).walk ++
          Node.walkAll (trees body (ts.drop (guard.word.length + 2)))) := rfl
    have hblocks : Node.blocks (tree (loop predicate guard body) ts).walk =
        tree (loop predicate guard body) ts :: Node.blocks ((guard.tree (ts.drop 1)).walk ++
          Node.walkAll (trees body (ts.drop (guard.word.length + 2)))) := by
      rw [hwalk]
      rfl
    rw [hblocks, Node.blocks_append, hguard, List.nil_append, ← hbody, spans, Span.map_node_around]
  | test body, ts => by
    have hbody := map_node_spansAll body (ts.drop 2)
    have hblocks : Node.blocks (tree (test body) ts).walk =
        tree (test body) ts :: Node.blocks (Node.walkAll (trees body (ts.drop 2))) := rfl
    rw [hblocks, ← hbody, spans, Span.map_node_around]
  | flip element, ts => by cases element <;> rfl
  | apply operator operand, ts => by
    have hoperand := operand.blocks_walk_tree (ts.drop 1)
    have hblocks : Node.blocks (tree (apply operator operand) ts).walk =
        Node.blocks ((operand.tree (ts.drop 1)).walk ++ []) := rfl
    rw [hblocks, List.append_nil, hoperand]
    rfl
  | put, ts | complement, ts | colon, ts | semicolon, ts | tilde, ts => rfl

/-- The spans of statements are those of the nodes of their trees that have statements inside, in the
order of the trees. -/
theorem map_node_spansAll : ∀ (ds : List Phrase) (ts : List Token),
    (spansAll ds ts).map Span.node = Node.blocks (Node.walkAll (trees ds ts))
  | [], _ => rfl
  | d :: ds, ts => by
    have hfirst := map_node_spans d ts
    have hrest := map_node_spansAll ds (ts.drop d.word.length)
    rw [spansAll, List.map_append, Span.map_node_map_shift, hfirst, hrest, ← Node.blocks_append]
    rfl

end

/-! ## Spans and tokens -/

/-- The trees of a derivation do not depend on the tokens behind it. -/
theorem trees_append_right {ds : List Phrase} {read : List Token}
    (h : read.map Token.kind = words ds) (rest : List Token) :
    trees ds (read ++ rest) = trees ds read := by
  have hread := after?_words ds .program [] [] [] trivial h
  rw [List.append_nil, after?_words ds .program [] [] rest trivial h] at hread
  simpa using hread

mutual

/-- Each span of a statement is around the statements of its node. -/
theorem encloses_of_mem_spans : ∀ (d : Phrase) {read : List Token} (rest : List Token),
    read.map Token.kind = d.word → ∀ s ∈ d.spans (read ++ rest), s.Encloses (read ++ rest)
  | loop predicate guard body, read, rest, hread, s, hs => by
    obtain ⟨p, more, rfl, hp, hmore⟩ := List.map_eq_cons_iff.1 hread
    obtain ⟨g, more, rfl, hg, hmore⟩ := List.map_eq_append_iff.1 hmore
    obtain ⟨opening, more, rfl, hopening, hmore⟩ := List.map_eq_cons_iff.1 hmore
    obtain ⟨inner, last, rfl, hinner, hlast⟩ := List.map_eq_append_iff.1 hmore
    obtain ⟨closing, rfl, hclosing⟩ := List.map_eq_singleton_iff.1 hlast
    have hfront : guard.word.length + 1 = (p :: g).length := by
      rw [← hg, List.length_map, List.length_cons]
    have hsplit : p :: (g ++ opening :: (inner ++ [closing])) ++ rest =
        p :: g ++ opening :: (inner ++ closing :: rest) := by simp
    have hdrop : (p :: g ++ opening :: (inner ++ closing :: rest)).drop (guard.word.length + 2) =
        inner ++ closing :: rest := by
      show List.drop (guard.word.length + 1 + 1) _ = _
      rw [hfront, List.append_cons]
      exact List.drop_left' (by simp)
    rw [hsplit, spans, hdrop, hfront, ← hinner, List.length_map] at hs
    rw [hsplit]
    refine Span.encloses_around (p :: g) ?_ hinner.symm ?_
      (encloses_of_mem_spansAll body (closing :: rest) hinner) s hs
    · rw [hopening, hclosing]
      rfl
    · show _ = trees body (List.drop (guard.word.length + 2) _)
      rw [hdrop, trees_append_right hinner]
  | test body, read, rest, hread, s, hs => by
    obtain ⟨p, more, rfl, hp, hmore⟩ := List.map_eq_cons_iff.1 hread
    obtain ⟨opening, more, rfl, hopening, hmore⟩ := List.map_eq_cons_iff.1 hmore
    obtain ⟨inner, last, rfl, hinner, hlast⟩ := List.map_eq_append_iff.1 hmore
    obtain ⟨closing, rfl, hclosing⟩ := List.map_eq_singleton_iff.1 hlast
    have hsplit : p :: opening :: (inner ++ [closing]) ++ rest =
        [p] ++ opening :: (inner ++ closing :: rest) := by simp
    have hdrop : ([p] ++ opening :: (inner ++ closing :: rest)).drop 2 =
        inner ++ closing :: rest := rfl
    rw [hsplit, spans, hdrop, ← hinner, List.length_map] at hs
    rw [hsplit]
    refine Span.encloses_around [p] ?_ hinner.symm ?_
      (encloses_of_mem_spansAll body (closing :: rest) hinner) s hs
    · rw [hopening, hclosing]
      rfl
    · show _ = trees body (List.drop 2 _)
      rw [hdrop, trees_append_right hinner]
  | flip _, _, _, _, _, hs | put, _, _, _, _, hs | apply _ _, _, _, _, _, hs
  | complement, _, _, _, _, hs | colon, _, _, _, _, hs | semicolon, _, _, _, _, hs
  | tilde, _, _, _, _, hs => by cases hs

/-- Each span of some statements encloses the statements inside its node. -/
theorem encloses_of_mem_spansAll : ∀ (ds : List Phrase) {read : List Token} (rest : List Token),
    read.map Token.kind = words ds → ∀ s ∈ spansAll ds (read ++ rest), s.Encloses (read ++ rest)
  | [], _, _, _, _, hs => by cases hs
  | d :: ds, read, rest, hread, s, hs => by
    obtain ⟨first, more, rfl, hfirst, hmore⟩ := List.map_eq_append_iff.1 hread
    have hlength : d.word.length = first.length := by rw [← hfirst, List.length_map]
    rw [spansAll, List.append_assoc, List.mem_append] at hs
    rw [List.append_assoc]
    rcases hs with hs | hs
    · exact encloses_of_mem_spans d (more ++ rest) hfirst s hs
    · rw [hlength, List.drop_left] at hs
      obtain ⟨t, ht, rfl⟩ := List.mem_map.1 hs
      exact (encloses_of_mem_spansAll ds rest hmore t ht).shift first

end

/-! ## The order of spans -/

mutual

/-- The spans of a statement open inside it. -/
theorem opening_lt_of_mem_spans : ∀ (d : Phrase) (ts : List Token),
    ∀ s ∈ d.spans ts, s.opening < d.word.length
  | loop predicate guard body, ts, s, hs => by
    have hlength : (loop predicate guard body).word.length =
        guard.word.length + 1 + ((words body).length + 2) := by
      simp [word]
      omega
    rw [hlength]
    exact Span.opening_lt_of_mem_around (opening_lt_of_mem_spansAll body _) s hs
  | test body, ts, s, hs => by
    have hlength : (test body).word.length = 1 + ((words body).length + 2) := by
      simp [word]
      omega
    rw [hlength]
    exact Span.opening_lt_of_mem_around (opening_lt_of_mem_spansAll body _) s hs
  | flip _, _, _, hs | put, _, _, hs | apply _ _, _, _, hs | complement, _, _, hs
  | colon, _, _, hs | semicolon, _, _, hs | tilde, _, _, hs => by cases hs

/-- The spans of statements open inside them. -/
theorem opening_lt_of_mem_spansAll : ∀ (ds : List Phrase) (ts : List Token),
    ∀ s ∈ spansAll ds ts, s.opening < (words ds).length
  | [], _, _, hs => by cases hs
  | d :: ds, ts, s, hs => by
    rw [spansAll, List.mem_append] at hs
    rw [words_cons, List.length_append]
    rcases hs with hs | hs
    · exact Nat.lt_add_right _ (opening_lt_of_mem_spans d ts s hs)
    · obtain ⟨t, ht, rfl⟩ := List.mem_map.1 hs
      have hlt := opening_lt_of_mem_spansAll ds _ t ht
      show t.opening + d.word.length < _
      omega

end

/-- No statement begins with the first mark of a block. -/
theorem opening_pos_of_mem_spans (d : Phrase) (ts : List Token) : ∀ s ∈ d.spans ts, 0 < s.opening := by
  intro s hs
  cases d with
  | loop => exact Span.opening_pos_of_mem_around (Nat.succ_pos _) s hs
  | test => exact Span.opening_pos_of_mem_around Nat.one_pos s hs
  | flip | put | apply | complement | colon | semicolon | tilde => cases hs

/-- No span of statements opens at the first token, since a header comes first. -/
theorem opening_pos_of_mem_spansAll (ds : List Phrase) (ts : List Token) :
    ∀ s ∈ spansAll ds ts, 0 < s.opening := by
  cases ds with
  | nil => exact fun _ hs => absurd hs List.not_mem_nil
  | cons d ds =>
    intro s hs
    rw [spansAll, List.mem_append] at hs
    rcases hs with hs | hs
    · exact opening_pos_of_mem_spans d ts s hs
    · obtain ⟨t, -, rfl⟩ := List.mem_map.1 hs
      obtain ⟨k, rest, hword, -⟩ := exists_word_eq_cons d
      rw [hword]
      exact Nat.add_pos_right t.opening (Nat.succ_pos rest.length)

mutual

/-- The spans of a statement stand in the order in which they open. -/
theorem pairwise_spans : ∀ (d : Phrase) (ts : List Token), (d.spans ts).Pairwise Span.OpensBefore
  | loop _ guard body, ts =>
    Span.pairwise_around (pairwise_spansAll body (ts.drop (guard.word.length + 2)))
  | test body, ts => Span.pairwise_around (pairwise_spansAll body (ts.drop 2))
  | flip _, _ | put, _ | apply _ _, _ | complement, _ | colon, _ | semicolon, _ | tilde, _ => .nil

/-- Blocks are opened in the order of their nodes. -/
theorem pairwise_spansAll : ∀ (ds : List Phrase) (ts : List Token),
    (spansAll ds ts).Pairwise Span.OpensBefore
  | [], _ => .nil
  | d :: ds, ts => by
    rw [spansAll, List.pairwise_append]
    refine ⟨pairwise_spans d ts, Span.pairwise_map_shift (pairwise_spansAll ds _) _, ?_⟩
    intro s hs t ht
    obtain ⟨u, -, rfl⟩ := List.mem_map.1 ht
    exact Nat.lt_add_left _ (opening_lt_of_mem_spans d ts s hs)

end

end Phrase

/-! ## Open blocks -/

/-- What tokens of some kinds add to the number of open blocks. -/
def depthOf : List TokenKind → Int
  | [] => 0
  | k :: kinds => depthChange k + depthOf kinds

/-- The depths of two words add up. -/
@[simp] theorem depthOf_append (kinds kinds' : List TokenKind) :
    depthOf (kinds ++ kinds') = depthOf kinds + depthOf kinds' := by
  induction kinds with
  | nil => exact (Int.zero_add _).symm
  | cons k kinds ih => rw [List.cons_append, depthOf, ih, depthOf, Int.add_assoc]

/-- The depth at a place in two words is that of the first, and of what is read of the second. -/
theorem depthOf_take_append (kinds kinds' : List TokenKind) (n : Nat) :
    depthOf ((kinds ++ kinds').take n) =
      depthOf (kinds.take n) + depthOf (kinds'.take (n - kinds.length)) := by
  rw [List.take_append, depthOf_append]

/-- The depth after one token is what this token changes. -/
theorem depthOf_take_singleton (k : TokenKind) (n : Nat) :
    depthOf ([k].take n) = if 0 < n then depthChange k else 0 := by
  cases n with
  | zero => rfl
  | succ n => simp [depthOf]

/-- Tokens that are no marks of blocks leave the number of open blocks as it is. -/
theorem depthOf_take_eq_zero {kinds : List TokenKind} (h : ∀ k ∈ kinds, depthChange k = 0)
    (n : Nat) : depthOf (kinds.take n) = 0 := by
  induction kinds generalizing n with
  | nil =>
    rw [List.take_nil]
    rfl
  | cons k kinds ih =>
    obtain ⟨hk, hkinds⟩ := List.forall_mem_cons.1 h
    rw [← List.singleton_append, depthOf_take_append, ih hkinds, depthOf_take_singleton, hk]
    simp

/-- No expression changes the depth. -/
theorem ExprPhrase.depthChange_kind (e : ExprPhrase) : depthChange e.kind = 0 := by
  cases e <;> rfl

/-- No token between the braces of a set changes the depth. -/
theorem ExprPhrase.depthChange_of_mem_commaWord {es : List ExprPhrase} :
    ∀ k ∈ commaWord es, depthChange k = 0 := by
  induction es with
  | nil => simp [commaWord]
  | cons e es ih =>
    rw [commaWord]
    exact List.forall_mem_cons.2 ⟨rfl, List.forall_mem_cons.2 ⟨e.depthChange_kind, ih⟩⟩

/-- No token of a set changes the depth. -/
theorem SetPhrase.depthChange_of_mem_word (s : SetPhrase) : ∀ k ∈ s.word, depthChange k = 0 := by
  cases s with
  | mark | emptyBraces => decide
  | braces first more =>
    refine List.forall_mem_cons.2 ⟨rfl, List.forall_mem_cons.2 ⟨first.depthChange_kind, ?_⟩⟩
    rw [List.forall_mem_append]
    exact ⟨ExprPhrase.depthChange_of_mem_commaWord, by decide⟩

namespace Phrase

/-- Between its two marks the statements of a block have one more block around them. -/
theorem depthOf_take_block {front : List TokenKind} {opening closing : TokenKind}
    {body : List Phrase} {spans : List Span} (node : Node) (hfront : ∀ k ∈ front, depthChange k = 0)
    (hopening : depthChange opening = 1) (hclosing : depthChange closing = -1)
    (hbody : ∀ n, depthOf ((words body).take n) = Span.openAfter spans n) (n : Nat) :
    depthOf ((front ++ opening :: (words body ++ [closing])).take n) =
      Span.openAfter (Span.around node front.length (words body).length spans) n := by
  have hsplit : front ++ opening :: (words body ++ [closing]) =
      front ++ ([opening] ++ (words body ++ [closing])) := rfl
  rw [Span.openAfter_around, hsplit, depthOf_take_append, depthOf_take_append, depthOf_take_append,
    depthOf_take_eq_zero hfront, depthOf_take_singleton, depthOf_take_singleton, hbody, hopening,
    hclosing, Nat.sub_sub]
  simp only [List.length_singleton]
  split <;> split <;> split <;> omega

mutual

/-- The depth at a place in a statement is the number of its spans that are open there. -/
theorem depthOf_take_word : ∀ (d : Phrase) (ts : List Token) (n : Nat),
    depthOf (d.word.take n) = Span.openAfter (d.spans ts) n
  | loop predicate guard body, ts, n => by
    have hfront : ∀ k ∈ .predicate predicate :: guard.word, depthChange k = 0 :=
      List.forall_mem_cons.2 ⟨rfl, guard.depthChange_of_mem_word⟩
    exact depthOf_take_block (tree (loop predicate guard body) ts) hfront rfl rfl
      (depthOf_take_words body (ts.drop (guard.word.length + 2))) n
  | test body, ts, n => by
    have hfront : ∀ k ∈ [TokenKind.testedChar], depthChange k = 0 := by decide
    exact depthOf_take_block (tree (test body) ts) hfront rfl rfl
      (depthOf_take_words body (ts.drop 2)) n
  | flip element, ts, n => by
    refine depthOf_take_eq_zero ?_ n
    exact List.forall_mem_cons.2 ⟨rfl, List.forall_mem_singleton.2 element.depthChange_kind⟩
  | apply operator operand, ts, n => by
    refine depthOf_take_eq_zero ?_ n
    exact List.forall_mem_cons.2 ⟨rfl, operand.depthChange_of_mem_word⟩
  | put, ts, n | complement, ts, n | colon, ts, n | semicolon, ts, n | tilde, ts, n =>
    depthOf_take_eq_zero (by decide) n

/-- Behind every number of tokens of some statements as many of their blocks are open as the marks
among these tokens say. -/
theorem depthOf_take_words : ∀ (ds : List Phrase) (ts : List Token) (n : Nat),
    depthOf ((words ds).take n) = Span.openAfter (spansAll ds ts) n
  | [], ts, n => by
    rw [words_nil, List.take_nil]
    rfl
  | d :: ds, ts, n => by
    rw [words_cons, depthOf_take_append, depthOf_take_word d ts,
      depthOf_take_words ds (ts.drop d.word.length), spansAll, Span.openAfter_append,
      Span.openAfter_map_shift]
    rfl

end

end Phrase

end SetLang
