import SetLang.Proofs.Grammar.Recognition

/-!
# What completes a parse

Every state of the parser says what may still come: the words that complete the goal, followed by the
words that complete the unfinished nodes around it. A move takes the first kind off such a word, so
whatever completes the state after some tokens completes the state before them once the tokens are
put in front. No state is without a word that completes it.

A parse of a whole program is grounded: its program is the outermost block and no other. A grounded
state either moves on to a grounded state or rejects the token, and only the end of the text can
finish it.
-/

namespace SetLang

open Phrase (words)

/-! ## Words that complete a state -/

/-- The word that closes a block. -/
def Block.closing : Block → List TokenKind
  | .loop _ _ => [.rightBracket]
  | .test _ => [.backslash]
  | .program => []
  | .upTo _ => []

/-- A word that completes a goal. -/
def Goal.CompletedBy : Goal → List TokenKind → Prop
  | .statement, w => ∃ d : Phrase, w = d.word
  | .statements block _, w => ∃ ds, w = words ds ++ block.closing
  | .expression, w => ∃ e : ExprPhrase, w = [e.kind]
  | .setLiteral, w => ∃ s : SetPhrase, w = s.word
  | .firstElement, w =>
    w = [.rightBrace] ∨
      ∃ (e : ExprPhrase) (es : _), w = e.kind :: (ExprPhrase.commaWord es ++ [.rightBrace])
  | .moreElements _, w => ∃ es, w = ExprPhrase.commaWord es ++ [.rightBrace]
  | .openLoop _ _, w => ∃ ds, w = .leftBracket :: (words ds ++ [.rightBracket])
  | .openTest _, w => ∃ ds, w = .slash :: (words ds ++ [.backslash])

/-- What an unfinished node demands once it has the child it waits for. -/
def Frame.goal? : Frame → Option Goal
  | .block b done => some (.statements b done)
  | .flip => none
  | .setOperation _ => none
  | .guard tag => some (.openLoop tag (.leaf .set))
  | .elements done => some (.moreElements done)

/-- A word that completes an unfinished node. -/
def Frame.CompletedBy (f : Frame) (w : List TokenKind) : Prop :=
  match f.goal? with
  | some goal => goal.CompletedBy w
  | none => w = []

/-- A word that completes unfinished nodes, innermost first. -/
def Frame.AllCompletedBy : List Frame → List TokenKind → Prop
  | [], w => w = []
  | f :: fs, w => ∃ u v, w = u ++ v ∧ f.CompletedBy u ∧ AllCompletedBy fs v

/-- A word that completes a state. -/
def ParseState.CompletedBy (s : ParseState) (w : List TokenKind) : Prop :=
  ∃ u v, w = u ++ v ∧ s.goal.CompletedBy u ∧ Frame.AllCompletedBy s.frames v

/-! ## Moves take kinds off the front -/

theorem completedBy_of_giveNode {node : Node} {frames : List Frame} {next : ParseState}
    {w : List TokenKind} (h : giveNode node frames = .shift next) (hw : next.CompletedBy w) :
    Frame.AllCompletedBy frames w := by
  -- a node that is finished at once asks for nothing, and goes on to the next frame
  induction frames generalizing node with
  | nil => simp [giveNode] at h
  | cons f fs ih =>
    cases f with
    | block block done =>
      obtain rfl : _ = next := Move.shift.inj h
      exact hw
    | flip => exact ⟨[], w, rfl, rfl, ih h⟩
    | setOperation tag => exact ⟨[], w, rfl, rfl, ih h⟩
    | guard tag =>
      obtain rfl : _ = next := Move.shift.inj h
      exact hw
    | elements done =>
      obtain rfl : _ = next := Move.shift.inj h
      exact hw

/-- A token that an expression moves on from is that expression. -/
theorem exists_expr_of_expressionMove {t : Token} {frames : List Frame} {next : ParseState}
    {w : List TokenKind} (h : expressionMove t frames = .shift next) (hw : next.CompletedBy w) :
    ∃ e : ExprPhrase, t.kind = e.kind ∧ Frame.AllCompletedBy frames w := by
  unfold expressionMove at h
  split at h
  · next hk => exact ⟨.integer, hk, completedBy_of_giveNode h hw⟩
  · next hk => exact ⟨.percent, hk, completedBy_of_giveNode h hw⟩
  · cases h

/-- A token that a statement moves on from begins a statement. -/
theorem exists_phrase_of_statementMove {t : Token} {frames : List Frame} {next : ParseState}
    {w : List TokenKind} (h : statementMove t frames = .shift next) (hw : next.CompletedBy w) :
    ∃ (d : Phrase) (v : _), t.kind :: w = d.word ++ v ∧ Frame.AllCompletedBy frames v := by
  unfold statementMove at h
  split at h
  · next hk =>
    -- the goal takes the element, the new frame nothing more, and the old frames what is left
    obtain rfl : _ = next := Move.shift.inj h
    obtain ⟨_, _, rfl, ⟨e, rfl⟩, _, v, rfl, rfl, hframes⟩ := hw
    exact ⟨.flip e, v, by simp [Phrase.word, hk], hframes⟩
  · next hk => exact ⟨.put, w, by simp [Phrase.word, hk], completedBy_of_giveNode h hw⟩
  · next p hk =>
    obtain rfl : _ = next := Move.shift.inj h
    obtain ⟨_, _, rfl, ⟨s, rfl⟩, _, v, rfl, ⟨ds, rfl⟩, hframes⟩ := hw
    exact ⟨.loop p s ds, v, by simp [Phrase.word, hk], hframes⟩
  · next o hk =>
    obtain rfl : _ = next := Move.shift.inj h
    obtain ⟨_, _, rfl, ⟨s, rfl⟩, _, v, rfl, rfl, hframes⟩ := hw
    exact ⟨.apply o s, v, by simp [Phrase.word, hk], hframes⟩
  · next hk => exact ⟨.complement, w, by simp [Phrase.word, hk], completedBy_of_giveNode h hw⟩
  · next hk => exact ⟨.colon, w, by simp [Phrase.word, hk], completedBy_of_giveNode h hw⟩
  · next hk => exact ⟨.semicolon, w, by simp [Phrase.word, hk], completedBy_of_giveNode h hw⟩
  · next hk => exact ⟨.tilde, w, by simp [Phrase.word, hk], completedBy_of_giveNode h hw⟩
  · next hk =>
    obtain rfl : _ = next := Move.shift.inj h
    obtain ⟨_, v, rfl, ⟨ds, rfl⟩, hframes⟩ := hw
    exact ⟨.test ds, v, by simp [Phrase.word, hk], hframes⟩
  · cases h

theorem Block.closing_of_close? {block : Block} {done : List Node} {k : TokenKind} {node : Node}
    (h : block.close? done k = some node) : block.closing = [k] := by
  unfold close? at h
  split at h
  · rfl
  · rfl
  · cases h

theorem completedBy_of_blockMove {block : Block} {done : List Node} {t : Token}
    {frames : List Frame} {next : ParseState} {w : List TokenKind}
    (h : blockMove block done t frames = .shift next) (hw : next.CompletedBy w) :
    ParseState.CompletedBy ⟨.statements block done, frames⟩ (t.kind :: w) := by
  -- a statement that begins here goes before the statements that complete the block
  have hstatement (h : statementMove t (.block block done :: frames) = .shift next) :
      ParseState.CompletedBy ⟨.statements block done, frames⟩ (t.kind :: w) := by
    obtain ⟨d, _, hword, _, v, rfl, ⟨ds, rfl⟩, hframes⟩ := exists_phrase_of_statementMove h hw
    exact ⟨words (d :: ds) ++ block.closing, v, by simp [hword], ⟨d :: ds, rfl⟩, hframes⟩
  unfold blockMove at h
  split at h
  · next node hclose =>
    refine ⟨[t.kind], w, rfl, ⟨[], ?_⟩, completedBy_of_giveNode h hw⟩
    rw [Block.closing_of_close? hclose, Phrase.words_nil, List.nil_append]
  · -- only a part of a program stops without a closing mark
    split at h
    · split at h
      · cases h
      · exact hstatement h
    · exact hstatement h

/-- Whatever completes the state after a token completes the state before it, with the kind of the
token in front. -/
theorem ParseState.completedBy_of_move {s next : ParseState} {t : Token} {w : List TokenKind}
    (h : s.move t = .shift next) (hw : next.CompletedBy w) : s.CompletedBy (t.kind :: w) := by
  have htoken : s.onToken t = .shift next := by
    unfold move at h
    split at h
    · cases h
    · exact h
  obtain ⟨goal, frames⟩ := s
  cases goal with
  | statement =>
    obtain ⟨d, v, hword, hframes⟩ := exists_phrase_of_statementMove htoken hw
    exact ⟨d.word, v, hword, ⟨d, rfl⟩, hframes⟩
  | statements block done => exact completedBy_of_blockMove htoken hw
  | expression =>
    obtain ⟨e, hk, hframes⟩ := exists_expr_of_expressionMove htoken hw
    exact ⟨[t.kind], w, rfl, ⟨e, by rw [hk]⟩, hframes⟩
  | setLiteral =>
    simp only [onToken] at htoken
    split at htoken
    · next hk => exact ⟨[t.kind], w, rfl, ⟨.mark, by rw [hk]; rfl⟩, completedBy_of_giveNode htoken hw⟩
    · next hk =>
      obtain rfl : _ = next := Move.shift.inj htoken
      obtain ⟨_, v, rfl, rfl | ⟨e, es, rfl⟩, hframes⟩ := hw
      · exact ⟨_, v, by rw [hk]; rfl, ⟨.emptyBraces, rfl⟩, hframes⟩
      · exact ⟨_, v, by rw [hk]; rfl, ⟨.braces e es, rfl⟩, hframes⟩
    · cases htoken
  | firstElement =>
    simp only [onToken] at htoken
    split at htoken
    · next hk => exact ⟨[t.kind], w, rfl, .inl (by rw [hk]), completedBy_of_giveNode htoken hw⟩
    · obtain ⟨e, hk, _, v, rfl, ⟨es, rfl⟩, hframes⟩ := exists_expr_of_expressionMove htoken hw
      exact ⟨_, v, by rw [hk]; rfl, .inr ⟨e, es, rfl⟩, hframes⟩
  | moreElements done =>
    simp only [onToken] at htoken
    split at htoken
    · next hk =>
      obtain rfl : _ = next := Move.shift.inj htoken
      obtain ⟨_, _, rfl, ⟨e, rfl⟩, _, v, rfl, ⟨es, rfl⟩, hframes⟩ := hw
      exact ⟨_, v, by rw [hk]; rfl, ⟨e :: es, rfl⟩, hframes⟩
    · next hk => exact ⟨[t.kind], w, rfl, ⟨[], by rw [hk]; rfl⟩, completedBy_of_giveNode htoken hw⟩
    · cases htoken
  | openLoop tag guard =>
    simp only [onToken] at htoken
    split at htoken
    · next hk =>
      obtain rfl : _ = next := Move.shift.inj htoken
      obtain ⟨_, v, rfl, ⟨ds, rfl⟩, hframes⟩ := hw
      exact ⟨_, v, by rw [hk]; rfl, ⟨ds, rfl⟩, hframes⟩
    · cases htoken
  | openTest value =>
    simp only [onToken] at htoken
    split at htoken
    · next hk =>
      obtain rfl : _ = next := Move.shift.inj htoken
      obtain ⟨_, v, rfl, ⟨ds, rfl⟩, hframes⟩ := hw
      exact ⟨_, v, by rw [hk]; rfl, ⟨ds, rfl⟩, hframes⟩
    · cases htoken

/-- Whatever completes the state after some tokens completes the state before them, with their kinds
in front. -/
theorem ParseState.completedBy_of_after? {s s' : ParseState} {read : List Token}
    {w : List TokenKind} (h : s.after? read = some s') (hw : s'.CompletedBy w) :
    s.CompletedBy (read.map Token.kind ++ w) := by
  -- from the last token to the first
  induction read generalizing s with
  | nil =>
    rw [Option.some.inj h]
    exact hw
  | cons t read ih =>
    rw [after?] at h
    split at h
    · next next hmove => exact completedBy_of_move hmove (ih h)
    · cases h

/-! ## Every state can be completed -/

theorem Goal.exists_completedBy (goal : Goal) : ∃ w, goal.CompletedBy w := by
  cases goal with
  | statement => exact ⟨_, .tilde, rfl⟩
  | statements block done => exact ⟨_, [], rfl⟩
  | expression => exact ⟨_, .percent, rfl⟩
  | setLiteral => exact ⟨_, .mark, rfl⟩
  | firstElement => exact ⟨_, .inl rfl⟩
  | moreElements done => exact ⟨_, [], rfl⟩
  | openLoop tag guard => exact ⟨_, [], rfl⟩
  | openTest value => exact ⟨_, [], rfl⟩

theorem Frame.exists_allCompletedBy (frames : List Frame) : ∃ w, AllCompletedBy frames w := by
  induction frames with
  | nil => exact ⟨[], rfl⟩
  | cons f fs ih =>
    obtain ⟨v, hv⟩ := ih
    cases hgoal : f.goal? with
    | none => exact ⟨v, [], v, rfl, by rw [CompletedBy, hgoal], hv⟩
    | some goal =>
      obtain ⟨u, hu⟩ := goal.exists_completedBy
      exact ⟨u ++ v, u, v, rfl, by rwa [CompletedBy, hgoal], hv⟩

/-- No state is without a word that completes it. -/
theorem ParseState.exists_completedBy (s : ParseState) : ∃ w, s.CompletedBy w := by
  obtain ⟨u, hu⟩ := s.goal.exists_completedBy
  obtain ⟨v, hv⟩ := Frame.exists_allCompletedBy s.frames
  exact ⟨u ++ v, u, v, rfl, hu, hv⟩

/-! ## Parses of whole programs -/

/-- The state at the first token of a program. -/
def ParseState.initial : ParseState := ⟨.statements .program [], []⟩

theorem ParseState.initial_completedBy_iff {w : List TokenKind} :
    initial.CompletedBy w ↔ ∃ ds, w = words ds := by
  constructor
  · rintro ⟨_, _, rfl, ⟨ds, rfl⟩, rfl⟩
    exact ⟨ds, by simp [Block.closing]⟩
  · rintro ⟨ds, rfl⟩
    exact ⟨words ds ++ [], [], by simp, ⟨ds, rfl⟩, rfl⟩

/-- The program is the outermost of the unfinished nodes, and no other of them is a program or a part
of one up to a given kind of token. -/
def Frame.Grounded : List Frame → Prop
  | [] => False
  | .block .program _ :: fs => fs = []
  | .block (.upTo _) _ :: _ => False
  | _ :: fs => Grounded fs

/-- A state that a parse of a whole program can be in. -/
def ParseState.Grounded (s : ParseState) : Prop :=
  match s.goal with
  | .statements block done => Frame.Grounded (.block block done :: s.frames)
  | _ => Frame.Grounded s.frames

/-- A grounded parse goes on in a grounded state, or the token is rejected. -/
def Move.Grounded : Move → Prop
  | .shift next => next.Grounded
  | .verdict (.reject _) => True
  | .verdict _ => False

theorem Frame.Grounded.giveNode {frames : List Frame} (h : Frame.Grounded frames) (node : Node) :
    (giveNode node frames).Grounded := by
  induction frames generalizing node with
  | nil => exact h.elim
  | cons f fs ih =>
    cases f with
    | block block done => cases block <;> exact h
    | flip => exact ih h _
    | setOperation tag => exact ih h _
    | guard tag => exact h
    | elements done => exact h

theorem Frame.Grounded.statementMove {t : Token} {frames : List Frame}
    (h : Frame.Grounded frames) : (statementMove t frames).Grounded := by
  unfold SetLang.statementMove
  split <;> first | exact h.giveNode _ | exact h | trivial

theorem Frame.Grounded.expressionMove {t : Token} {frames : List Frame}
    (h : Frame.Grounded frames) : (expressionMove t frames).Grounded := by
  unfold SetLang.expressionMove
  split <;> first | exact h.giveNode _ | trivial

theorem Frame.Grounded.blockMove {block : Block} {done : List Node} {t : Token}
    {frames : List Frame} (h : Frame.Grounded (.block block done :: frames)) :
    (blockMove block done t frames).Grounded := by
  cases block with
  | upTo stop => exact h.elim
  | program => exact h.statementMove
  | loop tag guard =>
    have hframes : Frame.Grounded frames := h
    unfold SetLang.blockMove
    split
    · exact hframes.giveNode _
    · exact h.statementMove
  | test value =>
    have hframes : Frame.Grounded frames := h
    unfold SetLang.blockMove
    split
    · exact hframes.giveNode _
    · exact h.statementMove

/-- A token other than the end mark never finishes a grounded parse. -/
theorem ParseState.Grounded.onToken {s : ParseState} (h : s.Grounded) (t : Token) :
    (s.onToken t).Grounded := by
  obtain ⟨goal, frames⟩ := s
  cases goal with
  | statement => exact Frame.Grounded.statementMove h
  | statements block done => exact Frame.Grounded.blockMove h
  | expression => exact Frame.Grounded.expressionMove h
  | setLiteral =>
    simp only [ParseState.onToken]
    split
    · exact Frame.Grounded.giveNode h _
    · exact h
    · trivial
  | firstElement =>
    simp only [ParseState.onToken]
    split
    · exact Frame.Grounded.giveNode h _
    · exact Frame.Grounded.expressionMove h
  | moreElements done =>
    simp only [ParseState.onToken]
    split
    · exact h
    · exact Frame.Grounded.giveNode h _
    · trivial
  | openLoop tag guard =>
    simp only [ParseState.onToken]
    split
    · exact h
    · trivial
  | openTest value =>
    simp only [ParseState.onToken]
    split
    · exact h
    · trivial

/-- The end mark finishes a grounded parse between two statements of the program, and is rejected
everywhere else. -/
theorem ParseState.Grounded.onEnd {s : ParseState} (h : s.Grounded) :
    (∃ done, s = ⟨.statements .program done, []⟩) ∨ ∃ demand, s.onEnd = .reject demand := by
  obtain ⟨goal, frames⟩ := s
  cases goal with
  | statements block done =>
    cases block with
    | program =>
      obtain rfl : frames = [] := h
      exact .inl ⟨done, rfl⟩
    | upTo stop => exact h.elim
    | loop tag guard => exact .inr ⟨_, rfl⟩
    | test value => exact .inr ⟨_, rfl⟩
  | _ => exact .inr ⟨_, rfl⟩

theorem ParseState.initial_grounded : initial.Grounded := rfl

theorem ParseState.Grounded.shift {s next : ParseState} {t : Token} (hs : s.Grounded)
    (h : s.move t = .shift next) : next.Grounded := by
  have hgrounded := hs.onToken t
  rw [ParseState.move] at h
  split at h
  · cases h
  · rwa [h] at hgrounded

/-- A parse of a whole program stays grounded. -/
theorem ParseState.Grounded.after? {s s' : ParseState} {read : List Token} (hs : s.Grounded)
    (h : s.after? read = some s') : s'.Grounded := by
  induction read generalizing s with
  | nil => exact Option.some.inj h ▸ hs
  | cons t read ih =>
    rw [ParseState.after?] at h
    split at h
    · next next hmove => exact ih (hs.shift hmove) h
    · cases h

end SetLang
