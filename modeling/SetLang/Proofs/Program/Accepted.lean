import SetLang.Proofs.Grammar.Run
import SetLang.Proofs.Program.WellFormed
import SetLang.Session.Entry

/-!
# Trees of accepted texts are programs

A text that is parsed leaves the tree of a derivation over its own tokens, and these carry what their
kinds call for. So the tree is well formed: it is that of a program, which can be read back from it.
-/

namespace SetLang

/-! ## Programs of their trees -/

@[simp] theorem SetOperator.ofName?_name (o : SetOperator) : ofName? o.name = some o := by
  cases o <;> decide

@[simp] theorem Predicate.ofName?_name (p : Predicate) : ofName? p.name = some p := by
  cases p <;> decide

theorem charOfValue?_charValue (c : Char) : charOfValue? (charValue c) = some c := by
  simp [charOfValue?, charValue]

@[simp] theorem Expr.ofNode?_toNode (e : Expr) : ofNode? e.toNode = some e := by
  cases e <;> rfl

/-- What is read back one by one is read back as a list. -/
theorem mapM_map_eq_some {α β : Type} (read : β → Option α) (write : α → β)
    (h : ∀ a, read (write a) = some a) (l : List α) : (l.map write).mapM read = some l := by
  induction l with
  | nil => rfl
  | cons a l ih =>
    rw [List.map_cons, List.mapM_cons, h, ih]
    rfl

theorem setOfNode?_setToNode (es : List Expr) : setOfNode? (setToNode es) = some es :=
  mapM_map_eq_some _ _ Expr.ofNode?_toNode es

mutual

theorem Statement.ofNode?_toNode : ∀ s : Statement, Statement.ofNode? s.toNode = some s
  | .flip e => by simp [Statement.toNode, Statement.ofNode?, Expr.ofNode?_toNode]
  | .put c => by simp [Statement.toNode, Statement.ofNode?, charOfValue?_charValue]
  | .apply o es => by
    simp [Statement.toNode, Statement.ofNode?, textOfValue?, SetOperator.ofName?_name, setOfNode?_setToNode]
  | .loop p es body => by
    simp [Statement.toNode, Statement.ofNode?, textOfValue?, Predicate.ofName?_name, setOfNode?_setToNode,
      ofNodes?_toNodes body]
  | .test c body => by
    simp [Statement.toNode, Statement.ofNode?, charOfValue?_charValue, ofNodes?_toNodes body]
  | .complement => rfl
  | .increment => rfl
  | .read => rfl

theorem ofNodes?_toNodes : ∀ ss : List Statement, ofNodes? (toNodes ss) = some ss
  | [] => rfl
  | s :: rest => by
    simp [toNodes, ofNodes?, Statement.ofNode?_toNode s, ofNodes?_toNodes rest]

end

/-- A program is read back from its tree. -/
theorem Program.ofNode?_toNode (program : Program) : ofNode? program.toNode = some program :=
  ofNodes?_toNodes program

@[simp]
theorem Program.ofTree_toNode (program : Program) : ofTree program.toNode = .ok program := by
  rw [ofTree, ofNode?_toNode]

theorem Program.toNode_injective {program program' : Program}
    (h : program.toNode = program'.toNode) : program = program' := by
  have hread := ofNode?_toNode program
  rw [h, ofNode?_toNode] at hread
  exact (Option.some.inj hread).symm

/-! ## Parses that succeed -/

namespace Parser

theorem eq_of_conclude_finish {p q : Parser} {node node' : Node}
    (h : p.conclude (.finish node) = (.ok node', q)) : node = node' := by
  simp only [conclude] at h
  obtain ⟨htaken, -⟩ := Prod.mk.inj h
  cases htoken : p.advance.1 with
  | error fault =>
    rw [htoken] at htaken
    cases htaken
  | ok t =>
    rw [htoken] at htaken
    exact Except.ok.inj htaken

/-- A state that is grounded ends well only between two statements of the program. -/
theorem exists_done_of_conclude_onEnd {p q : Parser} {s : ParseState} {node : Node}
    (hs : s.Grounded) (h : p.conclude s.onEnd = (.ok node, q)) :
    ∃ done, s = ⟨.statements .program done, []⟩ ∧ node = .programOf done := by
  rcases hs.onEnd with ⟨done, rfl⟩ | ⟨demand, hreject⟩
  · exact ⟨done, rfl, (eq_of_conclude_finish h).symm⟩
  · rw [hreject] at h
    cases h

/-- What ends a grounded parse well at a token is the end of the program. -/
theorem exists_done_of_verdict {p q : Parser} {s : ParseState} {t : Token} {v : Verdict}
    {node : Node} (hs : s.Grounded) (hmove : s.move t = .verdict v)
    (h : p.conclude v = (.ok node, q)) :
    ∃ done, s = ⟨.statements .program done, []⟩ ∧ node = .programOf done := by
  by_cases hend : t.kind = .endOfText
  · rw [ParseState.move, if_pos hend] at hmove
    obtain rfl := Move.verdict.inj hmove
    exact exists_done_of_conclude_onEnd hs h
  · have hgrounded := hs.onToken t
    rw [← ParseState.move_eq_onToken hend, hmove] at hgrounded
    cases v with
    | reject demand => cases h
    | finish node => exact hgrounded.elim
    | stop node => exact hgrounded.elim

/-- A run that returns a program has moved over tokens of the feed to the end of the program. -/
theorem exists_after?_of_runOver_ok {last : Token} {last_kind : last.kind = .endOfText}
    {s : ParseState} {current : Token} {calls : Nat} {items : List (Except Fault Token)}
    {node : Node} {q : Parser} (hs : s.Grounded)
    (h : runOver last last_kind s current calls items = (.ok node, q)) :
    ∃ read done, s.after? read = some ⟨.statements .program done, []⟩ ∧ node = .programOf done ∧
      ∀ t ∈ read, t = current ∨ .ok t ∈ items := by
  induction items generalizing s current calls with
  | nil =>
    rw [runOver] at h
    split at h
    · next v hmove =>
      obtain ⟨done, rfl, hnode⟩ := exists_done_of_verdict hs hmove h
      exact ⟨[], done, rfl, hnode, by simp⟩
    · next next hmove =>
      obtain ⟨done, rfl, hnode⟩ := exists_done_of_conclude_onEnd (hs.shift hmove) h
      exact ⟨[current], done, ParseState.after?_cons hmove, hnode, by simp⟩
  | cons item items ih =>
    rw [runOver] at h
    split at h
    · next v hmove =>
      obtain ⟨done, rfl, hnode⟩ := exists_done_of_verdict hs hmove h
      exact ⟨[], done, rfl, hnode, by simp⟩
    · next next hmove =>
      split at h
      · next t =>
        -- the next token becomes the current one, and it is an item as well
        obtain ⟨read, done, hread, hnode, hmem⟩ := ih (hs.shift hmove) h
        refine ⟨current :: read, done, by rw [ParseState.after?_cons hmove, hread], hnode, ?_⟩
        intro u hu
        rcases List.mem_cons.1 hu with rfl | hu
        · exact .inl rfl
        · right
          rcases hmem u hu with rfl | hitem
          · exact List.mem_cons_self
          · exact List.mem_cons_of_mem _ hitem
      · cases h

/-- A parser starts at a token of its feed, and has no other tokens ahead than the feed has. -/
theorem mem_of_start_ok {feed : Feed} {p : Parser} (h : start feed = .ok p) :
    (.ok p.current ∈ feed.items ∨ p.current = feed.last) ∧
      ∀ item ∈ p.feed.items, item ∈ feed.items := by
  obtain ⟨items, last, last_kind⟩ := feed
  cases items with
  | nil =>
    obtain rfl := Except.ok.inj h
    exact ⟨.inr rfl, fun _ => id⟩
  | cons item items =>
    cases item with
    | error fault => cases h
    | ok t =>
      obtain rfl := Except.ok.inj h
      exact ⟨.inl List.mem_cons_self, fun _ => List.mem_cons_of_mem _⟩

end Parser

/-- The tree of an accepted text is well formed. -/
theorem isWellFormed_of_parseText {resolve : Resolver} (hresolve : resolve.Canonical)
    {text : List Char} {tree : Node} (h : parseText resolve text = .ok tree) :
    tree.IsWellFormed := by
  obtain ⟨p, hstart, hprogram⟩ := exists_of_bind_eq_ok h
  obtain ⟨hcurrent, hitems⟩ := Parser.mem_of_start_ok hstart
  obtain ⟨read, done, hread, rfl, hmem⟩ :=
    Parser.exists_after?_of_runOver_ok ParseState.initial_grounded (Prod.ext hprogram rfl)
  -- a token that was read is from the text, or the end mark of the feed
  have hpayload : ∀ t ∈ read, t.HasPayload := by
    intro t ht
    rcases hmem t ht with rfl | hitem
    · rcases hcurrent with hfirst | hlast
      · exact Feed.hasPayload_of_mem_ofText hresolve hfirst
      · rw [hlast]
        exact Feed.hasPayload_last _
    · exact Feed.hasPayload_of_mem_ofText hresolve (hitems _ hitem)
  obtain ⟨ds, hwords, htree⟩ := ParseState.exists_words_of_after? hread
  have hstatements := Phrase.isStatement_of_mem_trees ds [] hwords.symm hpayload
  rw [List.append_nil] at hstatements
  rw [htree]
  exact .program hstatements

/-- The tree of an accepted text is that of a program. -/
theorem exists_program_of_parseText {resolve : Resolver} (hresolve : resolve.Canonical)
    {text : List Char} {tree : Node} (h : parseText resolve text = .ok tree) :
    ∃ program : Program, tree = program.toNode := by
  obtain ⟨program, -, htree⟩ := (isWellFormed_of_parseText hresolve h).exists_program
  exact ⟨program, htree⟩

end SetLang
