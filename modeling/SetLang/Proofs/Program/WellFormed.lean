import SetLang.Proofs.Grammar.Phrase
import SetLang.Proofs.Token.Payload

/-!
# Well-formed trees

What a tree of a program is, kind by kind: which values and which children a node has. The tree of a
derivation is well formed if its tokens carry what their kinds call for, and every well-formed tree
is that of a program whose literals are natural numbers that fit decimal text.
-/

namespace SetLang

/-! ## Trees by their kinds -/

namespace Node

/-- The tree of an expression is a leaf: a natural number that fits decimal text, or the variable. -/
inductive IsExpr : Node → Prop where
  | integer {n : Nat} : n < Nat.pow 10 decimalDigitLimit → IsExpr (.mk .integer (.int n) [])
  | percent : IsExpr (.mk .percent .absent [])

/-- The tree of a set has expressions as its children. -/
inductive IsSet : Node → Prop where
  | elements {es : List Node} : (∀ e ∈ es, e.IsExpr) → IsSet (.mk .set .absent es)

/-- The tree of a statement. A set operation is tagged by its operator and has one set; a loop is
tagged by its predicate and has a set first and statements behind it; a printed or tested character
is any one character. -/
inductive IsStatement : Node → Prop where
  | flip {e : Node} : e.IsExpr → IsStatement (.mk .flip .absent [e])
  | printChar (c : Char) : IsStatement (.mk .printChar (.text (String.ofList [c])) [])
  | setOperation (o : SetOperator) {set : Node} :
      set.IsSet → IsStatement (.mk .setOperation (.text o.name) [set])
  | loop (p : Predicate) {guard : Node} {body : List Node} :
      guard.IsSet → (∀ n ∈ body, IsStatement n) →
      IsStatement (.mk .loop (.text p.name) (guard :: body))
  | charTest (c : Char) {body : List Node} :
      (∀ n ∈ body, IsStatement n) →
      IsStatement (.mk .charTest (.text (String.ofList [c])) body)
  | complement : IsStatement (.mk .complement .absent [])
  | increment : IsStatement (.mk .increment .absent [])
  | readChar : IsStatement (.mk .readChar .absent [])

/-- A well-formed tree is a program of statements. -/
inductive IsWellFormed : Node → Prop where
  | program {body : List Node} :
      (∀ n ∈ body, n.IsStatement) → IsWellFormed (.mk .program .absent body)

end Node

/-! ## Trees of derivations -/

variable {read : List Token}

theorem ExprPhrase.isExpr_tree (e : ExprPhrase) {t : Token} (hkind : t.kind = e.kind)
    (ht : t.HasPayload) (rest : List Token) : (e.tree (t :: rest)).IsExpr := by
  cases e with
  | integer =>
    obtain ⟨n, hn, hvalue⟩ := ht.1 hkind
    rw [tree, firstValue, hvalue]
    exact .integer hn
  | percent => exact .percent

theorem ExprPhrase.isExpr_of_mem_trees (e : ExprPhrase) (es : List ExprPhrase) (rest : List Token)
    (hkinds : read.map Token.kind = e.kind :: commaWord es) (hread : ∀ t ∈ read, t.HasPayload) :
    ∀ n ∈ trees (e :: es) (read ++ rest), n.IsExpr := by
  induction es generalizing e read with
  | nil =>
    obtain ⟨t, rfl, ht⟩ := List.map_eq_singleton_iff.1 hkinds
    rw [trees, trees, List.singleton_append]
    exact List.forall_mem_singleton.2 (e.isExpr_tree ht (hread t List.mem_cons_self) rest)
  | cons e' es ih =>
    obtain ⟨t, read, rfl, ht, hkinds⟩ := List.map_eq_cons_iff.1 hkinds
    obtain ⟨c, read, rfl, -, hkinds⟩ := List.map_eq_cons_iff.1 hkinds
    obtain ⟨ht', hread⟩ := List.forall_mem_cons.1 hread
    rw [trees, List.cons_append]
    exact List.forall_mem_cons.2
      ⟨e.isExpr_tree ht ht' _, ih e' hkinds (List.forall_mem_cons.1 hread).2⟩

theorem SetPhrase.isSet_tree (s : SetPhrase) (rest : List Token)
    (hkinds : read.map Token.kind = s.word) (hread : ∀ t ∈ read, t.HasPayload) :
    (s.tree (read ++ rest)).IsSet := by
  cases s with
  | mark => exact .elements (by simp)
  | emptyBraces => exact .elements (by simp)
  | braces first more =>
    obtain ⟨b, read, rfl, -, hkinds⟩ := List.map_eq_cons_iff.1 hkinds
    rw [← List.cons_append] at hkinds
    obtain ⟨elements, close, rfl, helements, -⟩ := List.map_eq_append_iff.1 hkinds
    have hpayload : ∀ t ∈ elements, t.HasPayload := fun t ht => hread t (by simp [ht])
    have htrees := first.isExpr_of_mem_trees more (close ++ rest) helements hpayload
    refine .elements ?_
    simpa using htrees

namespace Phrase

mutual

/-- The tree of a statement over tokens with payloads is well formed. -/
theorem isStatement_tree : ∀ (d : Phrase) {read : List Token} (rest : List Token),
    read.map Token.kind = d.word → (∀ t ∈ read, t.HasPayload) →
    (d.tree (read ++ rest)).IsStatement
  | flip e, read, rest, hkinds, hread => by
    obtain ⟨a, read, rfl, -, hkinds⟩ := List.map_eq_cons_iff.1 hkinds
    obtain ⟨t, rfl, ht⟩ := List.map_eq_singleton_iff.1 hkinds
    exact .flip (e.isExpr_tree ht (hread t (by simp)) rest)
  | put, read, rest, hkinds, hread => by
    obtain ⟨t, rfl, ht⟩ := List.map_eq_singleton_iff.1 hkinds
    obtain ⟨c, hc⟩ := (hread t List.mem_cons_self).2 (.inl ht)
    rw [List.singleton_append, tree, firstValue, hc]
    exact .printChar c
  | loop p guard body, read, rest, hkinds, hread => by
    obtain ⟨a, read, rfl, -, hkinds⟩ := List.map_eq_cons_iff.1 hkinds
    obtain ⟨set, read, rfl, hset, hkinds⟩ := List.map_eq_append_iff.1 hkinds
    obtain ⟨b, read, rfl, -, hkinds⟩ := List.map_eq_cons_iff.1 hkinds
    obtain ⟨inner, close, rfl, hinner, -⟩ := List.map_eq_append_iff.1 hkinds
    have hlength : guard.word.length = set.length := by rw [← hset, List.length_map]
    have hguard := guard.isSet_tree (b :: (inner ++ close) ++ rest) hset
      fun t ht => hread t (by simp [ht])
    have hbody := isStatement_of_mem_trees body (close ++ rest) hinner
      fun t ht => hread t (by simp [ht])
    rw [tree]
    refine .loop p ?_ ?_
    · simpa using hguard
    · simpa [hlength] using hbody
  | apply o operand, read, rest, hkinds, hread => by
    obtain ⟨a, read, rfl, -, hkinds⟩ := List.map_eq_cons_iff.1 hkinds
    exact .setOperation o (operand.isSet_tree rest hkinds fun t ht => hread t (by simp [ht]))
  | complement, read, rest, _, _ => .complement
  | colon, read, rest, _, _ => .increment
  | semicolon, read, rest, _, _ => .increment
  | tilde, read, rest, _, _ => .readChar
  | test body, read, rest, hkinds, hread => by
    obtain ⟨a, read, rfl, ha, hkinds⟩ := List.map_eq_cons_iff.1 hkinds
    obtain ⟨b, read, rfl, -, hkinds⟩ := List.map_eq_cons_iff.1 hkinds
    obtain ⟨inner, close, rfl, hinner, -⟩ := List.map_eq_append_iff.1 hkinds
    obtain ⟨c, hc⟩ := (hread a List.mem_cons_self).2 (.inr ha)
    have hbody := isStatement_of_mem_trees body (close ++ rest) hinner
      fun t ht => hread t (by simp [ht])
    rw [List.cons_append, tree, firstValue, hc]
    refine .charTest c ?_
    simpa using hbody

/-- The trees of statements over tokens with payloads are well formed. -/
theorem isStatement_of_mem_trees : ∀ (ds : List Phrase) {read : List Token} (rest : List Token),
    read.map Token.kind = words ds → (∀ t ∈ read, t.HasPayload) →
    ∀ n ∈ trees ds (read ++ rest), n.IsStatement
  | [], read, rest, _, _ => fun n hn => absurd hn List.not_mem_nil
  | d :: ds, read, rest, hkinds, hread => by
    obtain ⟨first, more, rfl, hfirst, hmore⟩ := List.map_eq_append_iff.1 hkinds
    have hlength : d.word.length = first.length := by rw [← hfirst, List.length_map]
    have hstatement := isStatement_tree d (more ++ rest) hfirst fun t ht => hread t (by simp [ht])
    have hstatements := isStatement_of_mem_trees ds rest hmore fun t ht => hread t (by simp [ht])
    rw [trees, List.append_assoc]
    refine List.forall_mem_cons.2 ⟨hstatement, ?_⟩
    simpa [hlength] using hstatements

end

end Phrase

/-! ## Programs of well-formed trees -/

/-- The literal of an expression, if it is one, is a natural number that fits decimal text. -/
def Expr.Fits : Expr → Prop
  | literal n => 0 ≤ n ∧ Integer.FitsDecimal n
  | percent => True

mutual

/-- The literals of a statement are natural numbers that fit decimal text. -/
def Statement.Fits : Statement → Prop
  | .flip e => e.Fits
  | .apply _ es => ∀ e ∈ es, e.Fits
  | .loop _ es body => (∀ e ∈ es, e.Fits) ∧ StatementsFit body
  | .test _ body => StatementsFit body
  | .put _ | .complement | .increment | .read => True

/-- The literals of some statements are natural numbers that fit decimal text. -/
def StatementsFit : List Statement → Prop
  | [] => True
  | s :: rest => s.Fits ∧ StatementsFit rest

end

namespace Node

theorem IsExpr.exists_expr {n : Node} (h : n.IsExpr) : ∃ e : Expr, e.Fits ∧ n = e.toNode := by
  cases h with
  | integer hn => exact ⟨.literal _, ⟨Int.natCast_nonneg _, hn⟩, rfl⟩
  | percent => exact ⟨.percent, trivial, rfl⟩

theorem IsSet.exists_exprs {n : Node} (h : n.IsSet) :
    ∃ es : List Expr, (∀ e ∈ es, e.Fits) ∧ n = setToNode es := by
  obtain @⟨elements, helements⟩ := h
  induction elements with
  | nil => exact ⟨[], by simp, rfl⟩
  | cons n elements ih =>
    obtain ⟨hn, hrest⟩ := List.forall_mem_cons.1 helements
    obtain ⟨e, he, rfl⟩ := hn.exists_expr
    obtain ⟨es, hes, hset⟩ := ih hrest
    obtain ⟨-, -, rfl⟩ := Node.mk.inj hset
    exact ⟨e :: es, List.forall_mem_cons.2 ⟨he, hes⟩, rfl⟩

theorem exists_statements_of_forall_mem {body : List Node}
    (h : ∀ n ∈ body, ∃ s : Statement, s.Fits ∧ n = s.toNode) :
    ∃ ss : List Statement, StatementsFit ss ∧ body = toNodes ss := by
  induction body with
  | nil => exact ⟨[], trivial, rfl⟩
  | cons n body ih =>
    obtain ⟨⟨s, hs, rfl⟩, hbody⟩ := List.forall_mem_cons.1 h
    obtain ⟨ss, hss, rfl⟩ := ih hbody
    exact ⟨s :: ss, ⟨hs, hss⟩, rfl⟩

theorem IsStatement.exists_statement {n : Node} (h : n.IsStatement) :
    ∃ s : Statement, s.Fits ∧ n = s.toNode := by
  induction h with
  | flip he =>
    obtain ⟨e, hfits, rfl⟩ := he.exists_expr
    exact ⟨.flip e, hfits, rfl⟩
  | printChar c => exact ⟨.put c, trivial, rfl⟩
  | setOperation o hset =>
    obtain ⟨es, hfits, rfl⟩ := hset.exists_exprs
    exact ⟨.apply o es, hfits, rfl⟩
  | loop p hguard _ ih =>
    obtain ⟨es, hfits, rfl⟩ := hguard.exists_exprs
    obtain ⟨ss, hss, rfl⟩ := exists_statements_of_forall_mem ih
    exact ⟨.loop p es ss, ⟨hfits, hss⟩, rfl⟩
  | charTest c _ ih =>
    obtain ⟨ss, hss, rfl⟩ := exists_statements_of_forall_mem ih
    exact ⟨.test c ss, hss, rfl⟩
  | complement => exact ⟨.complement, trivial, rfl⟩
  | increment => exact ⟨.increment, trivial, rfl⟩
  | readChar => exact ⟨.read, trivial, rfl⟩

/-- A well-formed tree is that of a program. -/
theorem IsWellFormed.exists_program {tree : Node} (h : tree.IsWellFormed) :
    ∃ program : Program, StatementsFit program ∧ tree = program.toNode := by
  obtain ⟨hbody⟩ := h
  obtain ⟨ss, hss, rfl⟩ :=
    exists_statements_of_forall_mem fun n hn => (hbody n hn).exists_statement
  exact ⟨ss, hss, rfl⟩

end Node

end SetLang
