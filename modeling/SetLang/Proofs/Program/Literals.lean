import SetLang.Proofs.Program.WellFormed

/-!
# Literals of programs

An integer stands as a literal in a program if its tree has a leaf for it. Below a statement stand its
operand or its guard and the statements of its body, so the literals of a program are found statement
by statement. That the literals of a program fit decimal text is a statement about each of them.
-/

namespace SetLang

/-- An integer stands as a literal in a statement. -/
def Statement.Mentions (s : Statement) (x : Int) : Prop :=
  .mk .integer (.int x) [] ∈ s.toNode.walk

/-- An integer stands as a literal in some statements. -/
def Mentions (ss : List Statement) (x : Int) : Prop :=
  .mk .integer (.int x) [] ∈ Node.walkAll (toNodes ss)

variable {x : Int} {s : Statement} {ss more : List Statement}

/-- A node of another kind is no literal. -/
theorem integer_ne_of_kind_ne {kind : NodeKind} {value : Value} {children : List Node}
    (h : kind ≠ .integer) : Node.mk .integer (.int x) [] ≠ .mk kind value children :=
  fun heq => h (Node.mk.inj heq).1.symm

/-! ## Lists of statements -/

@[simp] theorem not_mentions_nil : ¬ Mentions [] x :=
  List.not_mem_nil

@[simp] theorem mentions_cons : Mentions (s :: ss) x ↔ s.Mentions x ∨ Mentions ss x :=
  List.mem_append

@[simp] theorem mentions_append : Mentions (ss ++ more) x ↔ Mentions ss x ∨ Mentions more x := by
  induction ss with
  | nil => simp
  | cons s ss ih => simp [ih, or_assoc]

/-- The literals of a program are those of its statements. -/
theorem mem_walk_toNode_iff {program : Program} :
    .mk .integer (.int x) [] ∈ program.toNode.walk ↔ Mentions program x := by
  rw [Program.toNode, Node.walk, List.mem_cons, or_iff_right (integer_ne_of_kind_ne (by decide))]
  rfl

/-! ## Statements -/

theorem mem_walk_expr_iff {e : Expr} :
    .mk .integer (.int x) [] ∈ e.toNode.walk ↔ e = .literal x := by
  cases e with
  | literal n => simp [Expr.toNode, Node.walk, Node.walkAll, eq_comm]
  | percent => simp [Expr.toNode, Node.leaf, Node.walk, Node.walkAll]

theorem mem_walkAll_exprs_iff {es : List Expr} :
    .mk .integer (.int x) [] ∈ Node.walkAll (es.map Expr.toNode) ↔ .literal x ∈ es := by
  induction es with
  | nil => simp [Node.walkAll]
  | cons e es ih =>
    rw [List.map_cons, Node.walkAll, List.mem_append, ih, mem_walk_expr_iff, List.mem_cons, eq_comm]

theorem mem_walk_set_iff {es : List Expr} :
    .mk .integer (.int x) [] ∈ (setToNode es).walk ↔ .literal x ∈ es := by
  rw [setToNode, Node.walk, List.mem_cons, mem_walkAll_exprs_iff,
    or_iff_right (integer_ne_of_kind_ne (by decide))]

namespace Statement

theorem mentions_flip {e : Expr} : (flip e).Mentions x ↔ e = .literal x := by
  rw [Mentions, toNode, Node.walk, List.mem_cons, Node.walkAll, List.mem_append, mem_walk_expr_iff]
  simp [Node.walkAll]

theorem mentions_apply {o : SetOperator} {es : List Expr} :
    (apply o es).Mentions x ↔ .literal x ∈ es := by
  rw [Mentions, toNode, Node.walk, List.mem_cons, Node.walkAll, List.mem_append, mem_walk_set_iff]
  simp [Node.walkAll]

theorem mentions_loop {p : Predicate} {es : List Expr} {body : List Statement} :
    (loop p es body).Mentions x ↔ .literal x ∈ es ∨ SetLang.Mentions body x := by
  rw [Mentions, toNode, Node.walk, List.mem_cons, Node.walkAll, List.mem_append, mem_walk_set_iff,
    or_iff_right (integer_ne_of_kind_ne (by decide))]
  rfl

theorem mentions_test {c : Char} {body : List Statement} :
    (test c body).Mentions x ↔ SetLang.Mentions body x := by
  rw [Mentions, toNode, Node.walk, List.mem_cons,
    or_iff_right (integer_ne_of_kind_ne (by decide))]
  rfl

end Statement

/-! ## Literals that fit decimal text -/

/-- An integer that a literal of a text can stand for. -/
def Integer.IsWritten (x : Int) : Prop :=
  0 ≤ x ∧ Integer.FitsDecimal x

theorem Expr.fits_iff {e : Expr} : e.Fits ↔ ∀ x, e = .literal x → Integer.IsWritten x := by
  cases e with
  | literal n => simp [Fits, Integer.IsWritten]
  | percent => simp [Fits]

theorem forall_fits_iff {es : List Expr} :
    (∀ e ∈ es, e.Fits) ↔ ∀ x, .literal x ∈ es → Integer.IsWritten x := by
  simp only [Expr.fits_iff]
  constructor
  · intro h x hx
    exact h _ hx x rfl
  · rintro h e he x rfl
    exact h x he

mutual

theorem Statement.fits_iff : ∀ s : Statement, s.Fits ↔ ∀ x, s.Mentions x → Integer.IsWritten x
  | .flip e => by simp only [Statement.Fits, Statement.mentions_flip, Expr.fits_iff]
  | .apply o es => by simp only [Statement.Fits, Statement.mentions_apply, forall_fits_iff]
  | .loop p es body => by
    simp only [Statement.Fits, Statement.mentions_loop, forall_fits_iff, statementsFit_iff body,
      or_imp, forall_and]
  | .test c body => by simp only [Statement.Fits, Statement.mentions_test, statementsFit_iff body]
  | .put _ | .complement | .increment | .read => by
    simp [Statement.Fits, Statement.Mentions, Statement.toNode, Node.leaf, Node.walk, Node.walkAll]

/-- The literals of some statements fit if each of them does. -/
theorem statementsFit_iff : ∀ ss : List Statement,
    StatementsFit ss ↔ ∀ x, Mentions ss x → Integer.IsWritten x
  | [] => by simp [StatementsFit, not_mentions_nil]
  | s :: ss => by
    simp only [StatementsFit, mentions_cons, or_imp, forall_and, Statement.fits_iff s,
      statementsFit_iff ss]

end

end SetLang
