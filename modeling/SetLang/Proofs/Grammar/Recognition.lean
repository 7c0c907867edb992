import SetLang.Proofs.Grammar.Phrase

/-!
# Recognition of phrases

Every phrase moves the parser on from its first token to its last one, whatever surrounds it, and
leaves its tree with what surrounds it. Each lemma follows one production; the statements inside a
block are an induction over the derivation tree.
-/

namespace SetLang

open TokenKind

/-! ## Moves over several tokens -/

namespace ParseState

/-- The state after some tokens, if the parser goes on after each of them. -/
def after? (s : ParseState) : List Token → Option ParseState
  | [] => some s
  | t :: rest =>
    match s.move t with
    | .shift next => next.after? rest
    | .verdict _ => none

@[simp] theorem after?_nil (s : ParseState) : s.after? [] = some s := rfl

theorem after?_cons {s next : ParseState} {t : Token} {rest : List Token}
    (h : s.move t = .shift next) : s.after? (t :: rest) = next.after? rest := by
  rw [after?, h]

theorem after?_append {s middle : ParseState} {xs ys : List Token}
    (h : s.after? xs = some middle) : s.after? (xs ++ ys) = middle.after? ys := by
  induction xs generalizing s with
  | nil => rw [Option.some.inj h, List.nil_append]
  | cons t xs ih =>
    rw [after?] at h
    rw [List.cons_append, after?]
    split at h
    · exact ih h
    · cases h

theorem move_eq_onToken {s : ParseState} {t : Token} (h : t.kind ≠ .endOfText) :
    s.move t = s.onToken t := by
  rw [move, if_neg h]

end ParseState

/-! ## Blocks -/

/-- A block of a program: the program itself or what stands inside one of its statements. -/
def Block.InProgram : Block → Prop
  | .upTo _ => False
  | _ => True

/-- Where a block demands a statement or its end, a token that closes no block begins a statement. -/
theorem blockMove_eq_statementMove {block : Block} (hblock : block.InProgram) {t : Token}
    (ht : ¬ Phrase.EndsStatements t.kind) (done : List Node) (frames : List Frame) :
    blockMove block done t frames = statementMove t (.block block done :: frames) := by
  -- each block is closed by a kind that ends statements
  have hopen : block.close? done t.kind = none := by
    simp only [Phrase.EndsStatements, not_or] at ht
    cases block <;> cases hk : t.kind <;> simp_all [Block.close?]
  unfold blockMove
  rw [hopen]
  cases block with
  | upTo stop => exact hblock.elim
  | _ => rfl

/-- The first token of a statement moves the parser as a statement demands. -/
theorem move_statements {block : Block} (hblock : block.InProgram) {t : Token}
    (ht : ¬ Phrase.EndsStatements t.kind) (done : List Node) (frames : List Frame) :
    ParseState.move ⟨.statements block done, frames⟩ t =
      statementMove t (.block block done :: frames) := by
  rw [ParseState.move_eq_onToken fun h => ht (.inr (.inr h))]
  exact blockMove_eq_statementMove hblock ht done frames

/-- The token that closes a block gives its node to what waits for it. -/
theorem move_close {block : Block} {done : List Node} {t : Token} {node : Node}
    (ht : t.kind ≠ .endOfText) (hclose : block.close? done t.kind = some node)
    (frames : List Frame) :
    ParseState.move ⟨.statements block done, frames⟩ t = giveNode node frames := by
  rw [ParseState.move_eq_onToken ht]
  show blockMove block done t frames = giveNode node frames
  unfold blockMove
  rw [hclose]

/-! ## Expressions and sets -/

theorem ExprPhrase.kind_ne_endOfText (e : ExprPhrase) : e.kind ≠ .endOfText := by
  cases e <;> simp [kind]

theorem expressionMove_phrase (e : ExprPhrase) {t : Token} (h : t.kind = e.kind)
    (frames : List Frame) (rest : List Token) :
    expressionMove t frames = giveNode (e.tree (t :: rest)) frames := by
  cases e <;> rw [expressionMove, h] <;> rfl

/-- Elements after the first one, and the brace that closes them. -/
theorem after?_moreElements (es : List ExprPhrase) (rest : List Token) {done : List Node}
    {frames : List Frame} {next : ParseState} {read : List Token}
    (hread : read.map Token.kind = ExprPhrase.commaWord es ++ [.rightBrace])
    (hnext : giveNode (.setOf ((ExprPhrase.trees es ((read ++ rest).drop 1)).reverse ++ done))
      frames = .shift next) :
    ParseState.after? ⟨.moreElements done, frames⟩ read = some next := by
  induction es generalizing done read with
  | nil =>
    obtain ⟨t, rfl, ht⟩ := List.map_eq_singleton_iff.1 hread
    have hbrace : ParseState.move ⟨.moreElements done, frames⟩ t = .shift next := by
      rw [ParseState.move_eq_onToken (by simp [ht]), ParseState.onToken, ht]
      exact hnext
    rw [ParseState.after?_cons hbrace, ParseState.after?_nil]
  | cons e es ih =>
    obtain ⟨c, read, rfl, hc, hread⟩ := List.map_eq_cons_iff.1 hread
    obtain ⟨t, read, rfl, ht, hread⟩ := List.map_eq_cons_iff.1 hread
    -- the comma asks for an expression, which joins the finished elements
    have hcomma : ParseState.move ⟨.moreElements done, frames⟩ c =
        .shift ⟨.expression, .elements done :: frames⟩ := by
      rw [ParseState.move_eq_onToken (by simp [hc]), ParseState.onToken, hc]
    have helement : ParseState.move ⟨.expression, .elements done :: frames⟩ t =
        .shift ⟨.moreElements (e.tree (t :: (read ++ rest)) :: done), frames⟩ := by
      rw [ParseState.move_eq_onToken (by rw [ht]; exact e.kind_ne_endOfText), ParseState.onToken,
        expressionMove_phrase e ht _ (read ++ rest), giveNode]
    rw [ParseState.after?_cons hcomma, ParseState.after?_cons helement]
    refine ih hread ?_
    simpa [ExprPhrase.trees] using hnext

/-- A set gives its tree to what waits for it. -/
theorem after?_setLiteral (s : SetPhrase) (frames : List Frame) (rest : List Token)
    {next : ParseState} {read : List Token} (hread : read.map Token.kind = s.word)
    (hnext : giveNode (s.tree (read ++ rest)) frames = .shift next) :
    ParseState.after? ⟨.setLiteral, frames⟩ read = some next := by
  cases s with
  | mark =>
    obtain ⟨t, rfl, ht⟩ := List.map_eq_singleton_iff.1 hread
    have hmark : ParseState.move ⟨.setLiteral, frames⟩ t = .shift next := by
      rw [ParseState.move_eq_onToken (by simp [ht]), ParseState.onToken, ht]
      exact hnext
    rw [ParseState.after?_cons hmark, ParseState.after?_nil]
  | emptyBraces =>
    obtain ⟨b, read, rfl, hb, hread⟩ := List.map_eq_cons_iff.1 hread
    obtain ⟨t, rfl, ht⟩ := List.map_eq_singleton_iff.1 hread
    have hbrace : ParseState.move ⟨.setLiteral, frames⟩ b = .shift ⟨.firstElement, frames⟩ := by
      rw [ParseState.move_eq_onToken (by simp [hb]), ParseState.onToken, hb]
    have hclose : ParseState.move ⟨.firstElement, frames⟩ t = .shift next := by
      rw [ParseState.move_eq_onToken (by simp [ht]), ParseState.onToken, ht]
      exact hnext
    rw [ParseState.after?_cons hbrace, ParseState.after?_cons hclose, ParseState.after?_nil]
  | braces first more =>
    obtain ⟨b, read, rfl, hb, hread⟩ := List.map_eq_cons_iff.1 hread
    obtain ⟨t, read, rfl, ht, hread⟩ := List.map_eq_cons_iff.1 hread
    have hbrace : ParseState.move ⟨.setLiteral, frames⟩ b = .shift ⟨.firstElement, frames⟩ := by
      rw [ParseState.move_eq_onToken (by simp [hb]), ParseState.onToken, hb]
    have hfirst : ParseState.move ⟨.firstElement, frames⟩ t =
        .shift ⟨.moreElements [first.tree (t :: (read ++ rest))], frames⟩ := by
      rw [ParseState.move_eq_onToken (by rw [ht]; exact first.kind_ne_endOfText)]
      have hexpr := expressionMove_phrase first ht (.elements [] :: frames) (read ++ rest)
      rw [giveNode] at hexpr
      cases first <;> simpa [ParseState.onToken, ht, ExprPhrase.kind] using hexpr
    rw [ParseState.after?_cons hbrace, ParseState.after?_cons hfirst]
    refine after?_moreElements more rest hread ?_
    simpa [SetPhrase.tree, ExprPhrase.trees, Node.setOf] using hnext

/-! ## Statements -/

namespace Phrase

/-- A statement of one token leaves its tree with the block around it. -/
theorem after?_single {block : Block} (hblock : block.InProgram) {t : Token} {node : Node}
    (done : List Node) (frames : List Frame)
    (hends : ¬ EndsStatements t.kind)
    (hmove : ∀ fs, statementMove t fs = giveNode node fs) :
    ParseState.after? ⟨.statements block done, frames⟩ [t] =
      some ⟨.statements block (node :: done), frames⟩ := by
  rw [ParseState.after?_cons, ParseState.after?_nil]
  rw [move_statements hblock hends, hmove, giveNode]

mutual

/-- A statement leaves its tree with the block around it. -/
theorem after?_word : ∀ (d : Phrase) (block : Block) (done : List Node) (frames : List Frame)
    {read : List Token} (rest : List Token), block.InProgram → read.map Token.kind = d.word →
    ParseState.after? ⟨.statements block done, frames⟩ read =
      some ⟨.statements block (d.tree (read ++ rest) :: done), frames⟩
  | flip e, block, done, frames, read, rest, hblock, hread => by
    obtain ⟨a, read, rfl, ha, hread⟩ := List.map_eq_cons_iff.1 hread
    obtain ⟨t, rfl, ht⟩ := List.map_eq_singleton_iff.1 hread
    have hstar : ParseState.move ⟨.statements block done, frames⟩ a =
        .shift ⟨.expression, .flip :: .block block done :: frames⟩ := by
      rw [move_statements hblock (by simp [EndsStatements, ha]), statementMove, ha]
    have helement : ParseState.move ⟨.expression, .flip :: .block block done :: frames⟩ t =
        giveNode (e.tree (t :: rest)) (.flip :: .block block done :: frames) := by
      rw [ParseState.move_eq_onToken (by rw [ht]; exact e.kind_ne_endOfText), ParseState.onToken,
        expressionMove_phrase e ht]
    rw [ParseState.after?_cons hstar, ParseState.after?_cons helement]
    rfl
  | put, block, done, frames, read, rest, hblock, hread => by
    obtain ⟨t, rfl, ht⟩ := List.map_eq_singleton_iff.1 hread
    exact after?_single hblock done frames (by simp [EndsStatements, ht])
      fun fs => by rw [statementMove, ht]; rfl
  | loop p guard body, block, done, frames, read, rest, hblock, hread => by
    obtain ⟨a, read, rfl, ha, hread⟩ := List.map_eq_cons_iff.1 hread
    obtain ⟨set, read, rfl, hset, hread⟩ := List.map_eq_append_iff.1 hread
    obtain ⟨b, read, rfl, hb, hread⟩ := List.map_eq_cons_iff.1 hread
    obtain ⟨inner, read, rfl, hinner, hread⟩ := List.map_eq_append_iff.1 hread
    obtain ⟨c, rfl, hc⟩ := List.map_eq_singleton_iff.1 hread
    -- the predicate, the guard, a bracket, the body and the other bracket, one after the other
    have hlength : guard.word.length = set.length := by rw [← hset, List.length_map]
    have hpredicate : ParseState.move ⟨.statements block done, frames⟩ a =
        .shift ⟨.setLiteral, .guard p.name :: .block block done :: frames⟩ := by
      rw [move_statements hblock (by simp [EndsStatements, ha]), statementMove, ha]
    have hguard := after?_setLiteral guard (.guard p.name :: .block block done :: frames)
      (b :: (inner ++ [c]) ++ rest) hset rfl
    have hopen : ∀ g, ParseState.move ⟨.openLoop p.name g, .block block done :: frames⟩ b =
        .shift ⟨.statements (.loop p.name g) [], .block block done :: frames⟩ := fun g => by
      rw [ParseState.move_eq_onToken (by simp [hb]), ParseState.onToken, hb]
    have hbody := fun g => after?_words body (.loop p.name g) [] (.block block done :: frames)
      ([c] ++ rest) trivial hinner
    have hclose : ∀ g ns, ParseState.move
        ⟨.statements (.loop p.name g) ns, .block block done :: frames⟩ c =
        .shift ⟨.statements block (.loopOf p.name g ns :: done), frames⟩ := fun g ns => by
      rw [move_close (by simp [hc]) (by rw [hc]; rfl), giveNode]
    rw [ParseState.after?_cons hpredicate, ParseState.after?_append hguard,
      ParseState.after?_cons (hopen _), ParseState.after?_append (hbody _),
      ParseState.after?_cons (hclose _ _), ParseState.after?_nil]
    simp [tree, hlength, Node.loopOf]
  | apply o operand, block, done, frames, read, rest, hblock, hread => by
    obtain ⟨a, set, rfl, ha, hset⟩ := List.map_eq_cons_iff.1 hread
    have hoperator : ParseState.move ⟨.statements block done, frames⟩ a =
        .shift ⟨.setLiteral, .setOperation o.name :: .block block done :: frames⟩ := by
      rw [move_statements hblock (by simp [EndsStatements, ha]), statementMove, ha]
    rw [ParseState.after?_cons hoperator]
    exact after?_setLiteral operand _ rest hset rfl
  | complement, block, done, frames, read, rest, hblock, hread => by
    obtain ⟨t, rfl, ht⟩ := List.map_eq_singleton_iff.1 hread
    exact after?_single hblock done frames (by simp [EndsStatements, ht])
      fun fs => by rw [statementMove, ht]; rfl
  | colon, block, done, frames, read, rest, hblock, hread => by
    obtain ⟨t, rfl, ht⟩ := List.map_eq_singleton_iff.1 hread
    exact after?_single hblock done frames (by simp [EndsStatements, ht])
      fun fs => by rw [statementMove, ht]; rfl
  | semicolon, block, done, frames, read, rest, hblock, hread => by
    obtain ⟨t, rfl, ht⟩ := List.map_eq_singleton_iff.1 hread
    exact after?_single hblock done frames (by simp [EndsStatements, ht])
      fun fs => by rw [statementMove, ht]; rfl
  | tilde, block, done, frames, read, rest, hblock, hread => by
    obtain ⟨t, rfl, ht⟩ := List.map_eq_singleton_iff.1 hread
    exact after?_single hblock done frames (by simp [EndsStatements, ht])
      fun fs => by rw [statementMove, ht]; rfl
  | test body, block, done, frames, read, rest, hblock, hread => by
    obtain ⟨a, read, rfl, ha, hread⟩ := List.map_eq_cons_iff.1 hread
    obtain ⟨b, read, rfl, hb, hread⟩ := List.map_eq_cons_iff.1 hread
    obtain ⟨inner, read, rfl, hinner, hread⟩ := List.map_eq_append_iff.1 hread
    obtain ⟨c, rfl, hc⟩ := List.map_eq_singleton_iff.1 hread
    have htested : ParseState.move ⟨.statements block done, frames⟩ a =
        .shift ⟨.openTest a.value, .block block done :: frames⟩ := by
      rw [move_statements hblock (by simp [EndsStatements, ha]), statementMove, ha]
    have hopen : ParseState.move ⟨.openTest a.value, .block block done :: frames⟩ b =
        .shift ⟨.statements (.test a.value) [], .block block done :: frames⟩ := by
      rw [ParseState.move_eq_onToken (by simp [hb]), ParseState.onToken, hb]
    have hbody := after?_words body (.test a.value) [] (.block block done :: frames)
      ([c] ++ rest) trivial hinner
    have hclose : ∀ ns, ParseState.move
        ⟨.statements (.test a.value) ns, .block block done :: frames⟩ c =
        .shift ⟨.statements block (.testOf a.value ns :: done), frames⟩ := fun ns => by
      rw [move_close (by simp [hc]) (by rw [hc]; rfl), giveNode]
    rw [ParseState.after?_cons htested, ParseState.after?_cons hopen,
      ParseState.after?_append hbody, ParseState.after?_cons (hclose _), ParseState.after?_nil]
    simp [tree, firstValue, Node.testOf]

/-- Statements leave their trees with the block around them, the last one first. -/
theorem after?_words : ∀ (ds : List Phrase) (block : Block) (done : List Node)
    (frames : List Frame) {read : List Token} (rest : List Token), block.InProgram →
    read.map Token.kind = words ds →
    ParseState.after? ⟨.statements block done, frames⟩ read =
      some ⟨.statements block ((trees ds (read ++ rest)).reverse ++ done), frames⟩
  | [], block, done, frames, read, rest, hblock, hread => by
    rw [List.map_eq_nil_iff.1 hread]
    rfl
  | d :: ds, block, done, frames, read, rest, hblock, hread => by
    obtain ⟨first, more, rfl, hfirst, hmore⟩ := List.map_eq_append_iff.1 hread
    have hlength : d.word.length = first.length := by rw [← hfirst, List.length_map]
    rw [ParseState.after?_append (after?_word d _ _ _ (more ++ rest) hblock hfirst),
      after?_words ds _ _ _ rest hblock hmore]
    simp [trees, hlength]

end

end Phrase

end SetLang
