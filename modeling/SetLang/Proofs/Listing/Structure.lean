import SetLang.Proofs.Listing.Nesting
import SetLang.Proofs.Listing.Reader
import SetLang.Proofs.Text.Join
import Mathlib.Data.List.Forall2

/-!
# Structure of emitted code

Whatever an emitter has written before, statements are written behind it as one line for each of them
and one for each empty body, in the order of the text and as deep as blocks stand around them, and the
emitter comes back to its depth. So the header of a block is always followed by a line one level
deeper, and no other line by a deeper one. An emitter that is given several programs in turn writes
for each of them what a fresh one would write.
-/

namespace SetLang

/-! ## Rows of trees -/

/-- What a line is for: how many blocks stand around it, and the statement that it begins, or `none`
for an empty body. -/
structure Row where
  depth : Nat
  statement? : Option Node

namespace Node

/-- The rows of a body, given those of its statements. -/
def bodyRows (depth : Nat) (body : List Node) (rows : List Row) : List Row :=
  if body.isEmpty then [⟨depth, none⟩] else rows

mutual

/-- The rows of a statement with some blocks around it. -/
def rows (depth : Nat) : Node → List Row
  | mk kind value children =>
    ⟨depth, some (mk kind value children)⟩ ::
      match kind, children with
      | .loop, _ :: body => bodyRows (depth + 1) body (rowsAll (depth + 1) body)
      | .charTest, body => bodyRows (depth + 1) body (rowsAll (depth + 1) body)
      | _, _ => []

/-- The rows of some statements with some blocks around them. -/
def rowsAll (depth : Nat) : List Node → List Row
  | [] => []
  | n :: rest => rows depth n ++ rowsAll depth rest

end

/-- Whether a node is a statement, and no program, expression or set. -/
def isStatementNode (n : Node) : Bool :=
  n.kind ∉ [.program, .integer, .percent, .set]

/-- Whether a node is a block with an empty body. -/
def isEmptyBlock (n : Node) : Bool :=
  n.kind ∈ blockKinds && n.body.isEmpty

end Node

/-- A line is what a row calls for, in blocks that begin at some depth: it is indented once for each
block around it, and it is the first line of the statement, or says that there is none. -/
def Row.Fits (base : Nat) (row : Row) (line : Line) : Prop :=
  line.depth = base + row.depth ∧
    match row.statement? with
    | some n => (Emitter.emitAll [n] .fresh).2.listing.head? = some ⟨0, line.code⟩
    | none => line.code = "pass"

/-! ## Steps of depth -/

/-- Whether a line is the header of a block. -/
def Line.isHeader (line : Line) : Bool :=
  line.isLoop || "if ".toList.isPrefixOf line.code.toList

/-- Every header is directly followed by a line one level deeper, and no other line by a deeper
one. -/
def Listing.IsStepped : Listing → Prop
  | [] => True
  | line :: rest =>
    (line.isHeader = true → ∃ next ∈ rest.head?, next.depth = line.depth + 1) ∧
    (line.isHeader = false → ∀ next ∈ rest.head?, next.depth ≤ line.depth) ∧
    IsStepped rest

/-! ## Statements by their bodies -/

namespace Statement

/-- The statements inside a block. -/
def body? : Statement → Option (List Statement)
  | loop _ _ body => some body
  | test _ body => some body
  | _ => none

/-- What the first line of a statement says. -/
def form : Statement → LineForm
  | flip e => .flip e
  | put c => .put c
  | apply o es => .apply o es
  | loop p es _ => .loop p es
  | test c _ => .test c
  | complement => .complement
  | increment => .increment
  | read => .read

/-- The layout of a statement is its first line and the layout of its body. -/
theorem layout_eq (s : Statement) (depth : Nat) :
    s.layout depth = (depth, s.form) ::
      (s.body?.map fun body => bodyLayout (depth + 1) body (layoutOf (depth + 1) body)).getD [] := by
  cases s <;> rfl

/-- The rows of a statement are its own and those of its body. -/
theorem rows_toNode (s : Statement) (depth : Nat) :
    s.toNode.rows depth = ⟨depth, some s.toNode⟩ ::
      (s.body?.map fun body =>
        Node.bodyRows (depth + 1) (toNodes body) (Node.rowsAll (depth + 1) (toNodes body))).getD
          [] := by
  cases s <;> rfl

end Statement

mutual

/-- The body of a statement, where `statements_induction` goes into it. -/
theorem Statement.body_induction {motive : List Statement → Prop} (nil : motive [])
    (cons : ∀ s rest, (∀ body ∈ s.body?, motive body) → motive rest → motive (s :: rest)) :
    ∀ (s : Statement), ∀ body ∈ s.body?, motive body
  | .loop _ _ body, _, h => Option.some.inj h ▸ statements_induction nil cons body
  | .test _ body, _, h => Option.some.inj h ▸ statements_induction nil cons body
  | .flip _, _, h => nomatch h
  | .put _, _, h => nomatch h
  | .apply _ _, _, h => nomatch h
  | .complement, _, h => nomatch h
  | .increment, _, h => nomatch h
  | .read, _, h => nomatch h

/-- What holds of no statements, and of some statements if it holds of the body of the first one and
of those behind it, holds of all statements. -/
theorem statements_induction {motive : List Statement → Prop} (nil : motive [])
    (cons : ∀ s rest, (∀ body ∈ s.body?, motive body) → motive rest → motive (s :: rest)) :
    ∀ ss : List Statement, motive ss
  | [] => nil
  | s :: rest => cons s rest (s.body_induction nil cons) (statements_induction nil cons rest)

end

/-! ## One line for each row -/

/-- The lines after a layout are those before it and the lines of the layout. -/
theorem Emitter.listing_after (e : Emitter) (layout : Layout) :
    (e.after layout).listing = e.listing ++ layout.listing := by
  rw [listing, after, List.reverse_append, List.reverse_reverse]
  rfl

/-- The first line of a statement is the line of its form. -/
theorem Statement.head?_emitAll (s : Statement) :
    (Emitter.emitAll [s.toNode] .fresh).2.listing.head? = some ⟨0, s.form.code⟩ := by
  have hwritten : Emitter.emitAll [s.toNode] .fresh = (.ok (), Emitter.fresh.after (layoutOf 0 [s])) :=
    Emitter.emitAll_toNodes [s] .fresh
  rw [hwritten, Emitter.listing_after, layoutOf, s.layout_eq]
  rfl

/-- The lines of statements are what their rows call for. -/
theorem forall₂_rowsAll_layoutOf (base depth : Nat) (ss : List Statement) :
    List.Forall₂ (Row.Fits base) (Node.rowsAll depth (toNodes ss))
      (layoutOf (base + depth) ss).listing := by
  induction ss using statements_induction generalizing depth with
  | nil => exact .nil
  | cons s rest hbody hrest =>
    have hfirst : Row.Fits base ⟨depth, some s.toNode⟩ ⟨base + depth, s.form.code⟩ :=
      ⟨rfl, s.head?_emitAll⟩
    rw [toNodes, Node.rowsAll, layoutOf, Layout.listing_append, s.rows_toNode, s.layout_eq,
      Layout.listing_cons]
    refine List.rel_append (.cons hfirst ?_) (hrest depth)
    cases hs : s.body? with
    | none => exact .nil
    | some body =>
      cases body with
      | nil => exact .cons ⟨rfl, rfl⟩ .nil
      | cons first more => exact hbody _ hs (depth + 1)

/-! ## Counting rows -/

/-- A walk through a tree begins at the root. -/
@[simp] theorem Node.walk_eq (n : Node) : n.walk = [n] ++ walkAll n.children := by
  cases n
  rfl

section

variable {p : Node → Bool}
  (hp : ∀ kind ∈ [NodeKind.integer, .percent, .set], ∀ v cs, p (.mk kind v cs) = false)

include hp

/-- Nothing is looked for among expressions. -/
theorem filter_walkAll_expressions (es : List Expr) :
    (Node.walkAll (es.map Expr.toNode)).filter p = [] := by
  have hwalk (e : Expr) : (e.toNode.walk).filter p = [] := by
    cases e with
    | literal n => exact List.filter_cons_of_neg (by rw [hp .integer (by decide)]; decide)
    | percent => exact List.filter_cons_of_neg (by rw [hp .percent (by decide)]; decide)
  induction es with
  | nil => rfl
  | cons e es ih =>
    rw [List.map_cons, Node.walkAll, List.filter_append, hwalk, ih]
    rfl

/-- Nothing is looked for in a set. -/
theorem filter_walk_set (es : List Expr) : ((setToNode es).walk).filter p = [] := by
  rw [setToNode, Node.walk, List.filter_cons_of_neg (by rw [hp .set (by decide)]; decide)]
  exact filter_walkAll_expressions hp es

/-- Below a statement stand the statements of its body, and besides them only expressions. -/
theorem filter_walk_toNode (s : Statement) :
    (s.toNode.walk).filter p = [s.toNode].filter p ++
      (s.body?.map fun body => (Node.walkAll (toNodes body)).filter p).getD [] := by
  rw [Node.walk_eq, List.filter_append]
  refine congrArg _ ?_
  cases s with
  | flip e => exact filter_walkAll_expressions hp [e]
  | apply o es =>
    rw [Statement.toNode, Node.children, Node.walkAll, List.filter_append, filter_walk_set hp]
    rfl
  | loop q es body =>
    rw [Statement.toNode, Node.children, Node.walkAll, List.filter_append, filter_walk_set hp]
    rfl
  | _ => rfl

end

/-- The rows that begin statements begin all statements, in the order of the text. -/
theorem filterMap_rowsAll (depth : Nat) (ss : List Statement) :
    (Node.rowsAll depth (toNodes ss)).filterMap Row.statement? =
      (Node.walkAll (toNodes ss)).filter Node.isStatementNode := by
  induction ss using statements_induction generalizing depth with
  | nil => rfl
  | cons s rest hbody hrest =>
    have hfirst : [s.toNode].filter Node.isStatementNode = [s.toNode] := by
      cases s <;> rfl
    rw [toNodes, Node.rowsAll, List.filterMap_append, hrest, Node.walkAll, List.filter_append,
      filter_walk_toNode (by simp [Node.isStatementNode, Node.kind]), hfirst, s.rows_toNode]
    refine congrArg (· ++ _) (congrArg (s.toNode :: ·) ?_)
    cases hs : s.body? with
    | none => rfl
    | some body =>
      cases body with
      | nil => rfl
      | cons first more => exact hbody _ hs (depth + 1)

/-- The tree of a statement is an empty block if the statement has an empty body. -/
@[simp] theorem Statement.isEmptyBlock_toNode (s : Statement) :
    s.toNode.isEmptyBlock = (s.body?.map List.isEmpty).getD false := by
  cases s with
  | loop p es body | test c body => cases body <;> rfl
  | _ => rfl

/-- The other rows are those of the empty bodies. -/
theorem length_filter_rowsAll (depth : Nat) (ss : List Statement) :
    ((Node.rowsAll depth (toNodes ss)).filter (·.statement?.isNone)).length =
      ((Node.walkAll (toNodes ss)).filter Node.isEmptyBlock).length := by
  induction ss using statements_induction generalizing depth with
  | nil => rfl
  | cons s rest hbody hrest =>
    have hblock := s.isEmptyBlock_toNode
    rw [toNodes, Node.rowsAll, List.filter_append, List.length_append, hrest, Node.walkAll,
      List.filter_append, List.length_append,
      filter_walk_toNode (by simp [Node.isEmptyBlock, Node.blockKinds, Node.kind]), s.rows_toNode]
    refine congrArg (· + _) ?_
    cases hs : s.body? with
    | none =>
      rw [hs] at hblock
      rw [List.filter_singleton, hblock]
      rfl
    | some body =>
      rw [hs] at hblock
      rw [List.filter_singleton, hblock]
      cases body with
      | nil => rfl
      | cons first more => exact hbody _ hs (depth + 1)

/-! ## Sound steps -/

/-- Whether a line of code begins a test. -/
def LineForm.isTest : LineForm → Bool
  | test _ => true
  | _ => false

/-- Whether a line of code begins a block. -/
def LineForm.isHeader (form : LineForm) : Bool :=
  form.isLoop || form.isTest

/-- Among the lines of code only tests begin with the word for a test. -/
theorem LineForm.isPrefixOf_code (form : LineForm) :
    "if ".toList.isPrefixOf form.code.toList = form.isTest := by
  -- every other form begins with another letter
  have hother (first : Char) {text : String} (hfirst : text.toList.head? = some first)
      (hne : first ≠ 'i') : "if ".toList.isPrefixOf text.toList = false := by
    obtain ⟨rest, htext⟩ := List.head?_eq_some_iff.1 hfirst
    rw [htext]
    simp [List.isPrefixOf, hne.symm]
  cases form with
  | test c => simp [code, isTest, List.isPrefixOf]
  | loop p es => exact hother 'w' (by simp [code]) (by decide)
  | pass => exact hother 'p' (by simp [code]) (by decide)
  | flip | put | apply | complement | increment | read =>
    exact hother 'm' (by simp [code, machineCall, machineName]) (by decide)

/-- A line reads as a header if its form is one. -/
theorem LineForm.isHeader_code (depth : Nat) (form : LineForm) :
    Line.isHeader ⟨depth, form.code⟩ = form.isHeader := by
  rw [Line.isHeader, isLoop_code, isPrefixOf_code]
  rfl

/-- The statements with a body are those whose line is a header. -/
theorem Statement.isHeader_form (s : Statement) : s.form.isHeader = s.body?.isSome := by
  cases s <;> rfl

section

variable {depth : Nat} {rest : Listing}

/-- A line that is no header has no deeper line behind it. -/
theorem Listing.isStepped_cons_line {form : LineForm} (hform : form.isHeader = false)
    (hrest : ∀ l ∈ rest.head?, l.depth ≤ depth) (h : IsStepped rest) :
    IsStepped (⟨depth, form.code⟩ :: rest) := by
  refine ⟨fun hheader => ?_, fun _ => hrest, h⟩
  rw [LineForm.isHeader_code, hform] at hheader
  cases hheader

/-- A header has a line behind it that is one step deeper. -/
theorem Listing.isStepped_cons_header {form : LineForm} (hform : form.isHeader = true)
    (hrest : ∃ next ∈ rest.head?, next.depth = depth + 1) (h : IsStepped rest) :
    IsStepped (⟨depth, form.code⟩ :: rest) := by
  refine ⟨fun _ => hrest, fun hheader => ?_, h⟩
  rw [LineForm.isHeader_code, hform] at hheader
  cases hheader

/-- Statements and what is behind them, if it is no deeper, have sound steps. -/
theorem isStepped_layoutOf (depth : Nat) (ss : List Statement)
    (hrest : ∀ l ∈ rest.head?, l.depth ≤ depth) (h : rest.IsStepped) :
    Listing.IsStepped ((layoutOf depth ss).listing ++ rest) := by
  induction ss using statements_induction generalizing depth rest with
  | nil => exact h
  | cons s more hbody hmore =>
    have hstepped := hmore depth hrest h
    have hbehind : ∀ l ∈ ((layoutOf depth more).listing ++ rest).head?, l.depth ≤ depth :=
      depth_le_of_mem_head?_layoutOf hrest
    have hdeeper : ∀ l ∈ ((layoutOf depth more).listing ++ rest).head?, l.depth ≤ depth + 1 :=
      fun l hl => Nat.le_succ_of_le (hbehind l hl)
    have hheader := s.isHeader_form
    rw [layoutOf, Layout.listing_append, List.append_assoc, s.layout_eq, Layout.listing_cons,
      List.cons_append]
    cases hs : s.body? with
    | none =>
      rw [hs] at hheader
      exact Listing.isStepped_cons_line hheader hbehind hstepped
    | some body =>
      rw [hs] at hheader
      refine Listing.isStepped_cons_header hheader ?_ ?_
      · -- the body begins with a statement, or with the line of an empty body
        cases body with
        | nil => exact ⟨_, rfl, rfl⟩
        | cons first more => exact ⟨⟨depth + 1, first.form.code⟩, by cases first <;> rfl, rfl⟩
      · cases body with
        | nil =>
          have hpass : LineForm.pass.isHeader = false := rfl
          exact Listing.isStepped_cons_line hpass hdeeper hstepped
        | cons first more => exact hbody _ hs (depth + 1) hdeeper hstepped

end

/-! ## Emitters that have written before -/

theorem Program.listing_ne_nil (program : Program) : program.listing ≠ [] :=
  List.cons_ne_nil _ _

namespace Emitter

/-- Emits some trees in turn: everything that has been written after each of them. -/
def outputs (e : Emitter) : List Node → Except Fault (List String)
  | [] => .ok []
  | tree :: rest =>
    match e.node tree with
    | (.ok _, after) => (outputs after rest).map (after.output :: ·)
    | (.error fault, _) => .error fault

/-- At the margin a program is written as by a fresh emitter, behind what was written before. -/
theorem node_toNode_of_depth {e : Emitter} (h : e.depth = 0) (program : Program) :
    e.node program.toNode = (.ok (), ⟨program.listing.reverse ++ e.written, 0⟩) := by
  obtain ⟨written, depth⟩ := e
  obtain rfl : depth = 0 := h
  have hnode : node ⟨written, 0⟩ program.toNode =
      (.ok (), after ⟨preludeLines.reverse ++ written, 0⟩ (layoutOf 0 program)) :=
    emitAll_toNodes program ⟨preludeLines.reverse ++ written, 0⟩
  rw [hnode, after, Program.listing, List.reverse_append, List.append_assoc]

/-- The output for a program is the text of its listing. -/
theorem output_fresh_node (program : Program) :
    (fresh.node program.toNode).2.output = program.listing.text := by
  rw [node_toNode_of_depth rfl, output, listing, fresh, List.append_nil, List.reverse_reverse]

/-- What an emitter has written of several programs is their texts, joined by line feeds. -/
theorem output_of_listing_eq {e : Emitter} {programs : List Program}
    (h : e.listing = (programs.map Program.listing).flatten) :
    e.output = Text.joinWith "\n" (programs.map (·.listing.text)) := by
  have hgroups : ∀ texts ∈ programs.map (·.listing.map Line.text), texts ≠ [] := by
    intro texts htexts
    obtain ⟨program, -, rfl⟩ := List.mem_map.1 htexts
    exact mt List.map_eq_nil_iff.1 program.listing_ne_nil
  have hjoin := Text.joinWith_flatten "\n" hgroups
  rw [List.map_map] at hjoin
  rw [output, h, Listing.text, List.map_flatten, List.map_map]
  exact hjoin

/-- Behind some programs others are written one by one. -/
theorem outputs_map_toNode {e : Emitter} {done : List Program} (hdepth : e.depth = 0)
    (hdone : e.listing = (done.map Program.listing).flatten) (programs : List Program) :
    e.outputs (programs.map Program.toNode) = .ok ((List.range programs.length).map fun i =>
      Text.joinWith "\n" ((done ++ programs.take (i + 1)).map (·.listing.text))) := by
  induction programs generalizing e done with
  | nil => rfl
  | cons program programs ih =>
    let after : Emitter := ⟨program.listing.reverse ++ e.written, 0⟩
    have hafter : after.listing = ((done ++ [program]).map Program.listing).flatten := by
      rw [listing, List.reverse_append, List.reverse_reverse, ← listing, hdone]
      simp
    rw [List.map_cons, outputs, node_toNode_of_depth hdepth, List.length_cons,
      List.range_succ_eq_map, List.map_cons, List.map_map]
    show (after.outputs (programs.map Program.toNode)).map (after.output :: ·) = _
    rw [ih rfl hafter, output_of_listing_eq hafter]
    simp [Except.map, Function.comp_def]

end Emitter

/-! ## Sound blocks -/

/-- Lines lay out some statements in blocks that begin at some depth: there is one line for each
statement at any depth and one for each empty body, in the order of the text and as deep as blocks
stand around them, each of them is one line of text with four blanks for each block around it and no
more, and a line goes deeper than the one before it exactly behind a header. -/
structure Listing.LaysOut (base : Nat) (nodes : List Node) (lines : Listing) : Prop where
  length_eq : lines.length = ((Node.walkAll nodes).filter Node.isStatementNode).length +
    ((Node.walkAll nodes).filter Node.isEmptyBlock).length
  fits : List.Forall₂ (Row.Fits base) (Node.rowsAll 0 nodes) lines
  statements_eq : (Node.rowsAll 0 nodes).filterMap Row.statement? =
    (Node.walkAll nodes).filter Node.isStatementNode
  unbroken : ∀ line ∈ lines, Text.Unbroken line.text.toList
  blanks : ∀ line ∈ lines, (line.text.toList.takeWhile (· = ' ')).length = 4 * line.depth
  isStepped : lines.IsStepped

/-- A list is what a partial function takes of it and what it leaves. -/
theorem length_filterMap_add {α β : Type} (f : α → Option β) (l : List α) :
    (l.filterMap f).length + (l.filter fun a => (f a).isNone).length = l.length := by
  induction l with
  | nil => rfl
  | cons a l ih =>
    cases h : f a with
    | none => simp [h, ← ih, Nat.add_assoc]
    | some b => simp [h, ← ih, Nat.add_right_comm]

/-- The lines of statements lay out their trees. -/
theorem laysOut_layoutOf (base : Nat) (ss : List Statement) :
    Listing.LaysOut base (toNodes ss) (layoutOf base ss).listing where
  length_eq := by
    have hcount := length_filterMap_add Row.statement? (Node.rowsAll 0 (toNodes ss))
    rw [filterMap_rowsAll, length_filter_rowsAll] at hcount
    rw [hcount]
    exact (forall₂_rowsAll_layoutOf base 0 ss).length_eq.symm
  fits := forall₂_rowsAll_layoutOf base 0 ss
  statements_eq := filterMap_rowsAll 0 ss
  unbroken := by
    intro line hline
    obtain ⟨⟨depth, form⟩, -, rfl⟩ := List.mem_map.1 hline
    exact form.unbroken_text depth
  blanks := by
    intro line hline
    obtain ⟨⟨depth, form⟩, -, rfl⟩ := List.mem_map.1 hline
    rw [(form.blanks_text depth).1, List.length_replicate]
  isStepped := by
    have hend : ∀ l ∈ ([] : Listing).head?, l.depth ≤ base := by simp
    have hstepped := isStepped_layoutOf base ss hend trivial
    rwa [List.append_nil] at hstepped

/-- Well-formed trees are those of programs. -/
theorem exists_map_toNode {trees : List Node} (h : ∀ t ∈ trees, t.IsWellFormed) :
    ∃ programs : List Program, trees = programs.map Program.toNode := by
  induction trees with
  | nil => exact ⟨[], rfl⟩
  | cons tree trees ih =>
    obtain ⟨htree, htrees⟩ := List.forall_mem_cons.1 h
    obtain ⟨program, -, rfl⟩ := htree.exists_program
    obtain ⟨programs, rfl⟩ := ih htrees
    exact ⟨program :: programs, rfl⟩

/-- Emitted code has a sound block structure, whatever the emitter has written before and however
deep it stands: well-formed statements are laid out behind it, and the emitter comes back to its
depth. So an emitter that is given several programs in turn has written, after each of them, what
fresh emitters write of those so far, joined by line feeds. -/
theorem emitted_blocks_are_sound :
    (∀ (nodes : List Node) (e : Emitter), (∀ n ∈ nodes, n.IsStatement) →
      ∃ after lines, Emitter.emitAll nodes e = (.ok (), after) ∧ after.depth = e.depth ∧
        after.listing = e.listing ++ lines ∧ Listing.LaysOut e.depth nodes lines) ∧
    ∀ (trees : List Node) (target : String) (e : Emitter), (∀ t ∈ trees, t.IsWellFormed) →
      Emitter.forTarget target = .ok e →
      (∀ t ∈ trees, (Emitter.fresh.node t).1 = .ok ()) ∧
      e.outputs trees = .ok ((List.range trees.length).map fun i =>
        Text.joinWith "\n" ((trees.take (i + 1)).map fun t => (Emitter.fresh.node t).2.output)) := by
  refine ⟨fun nodes e hnodes => ?_, fun trees target e htrees htarget => ?_⟩
  · obtain ⟨ss, -, rfl⟩ :=
      Node.exists_statements_of_forall_mem fun n hn => (hnodes n hn).exists_statement
    exact ⟨_, _, Emitter.emitAll_toNodes ss e, rfl, e.listing_after _, laysOut_layoutOf e.depth ss⟩
  · obtain ⟨programs, rfl⟩ := exists_map_toNode htrees
    obtain rfl : .fresh = e := by
      rw [Emitter.forTarget] at htarget
      split at htarget
      · exact Except.ok.inj htarget
      · cases htarget
    refine ⟨fun t ht => ?_, ?_⟩
    · obtain ⟨program, -, rfl⟩ := List.mem_map.1 ht
      rw [Emitter.node_toNode_of_depth rfl]
    · have hnone : Emitter.fresh.listing = (([] : List Program).map Program.listing).flatten := rfl
      rw [Emitter.outputs_map_toNode rfl hnone, List.length_map]
      simp only [← List.map_take, List.map_map, Function.comp_def, Emitter.output_fresh_node,
        List.nil_append]

/-- A test with a loop of an empty body in it and a statement behind the test, for an emitter that has
written before; and an emitter that is given the same program twice. -/
theorem emitted_blocks_are_sound_nested :
    let nodes : List Node := [.mk .charTest (.text (String.ofList ['a']))
      [.mk .loop (.text Predicate.subset.name) [.mk .set .absent []], .leaf .readChar],
      .mk .flip .absent [.leaf .percent]]
    let tree : Node := .mk .program .absent nodes
    (∃ (after : Emitter) (lines : Listing),
      Emitter.emitAll nodes ⟨[⟨0, "pass"⟩], 2⟩ = (.ok (), after) ∧ after.depth = 2 ∧
      after.listing = ⟨0, "pass"⟩ :: lines ∧ lines.length = 4 + 1 ∧ lines.IsStepped) ∧
    Emitter.fresh.outputs [tree, tree] = .ok [(Emitter.fresh.node tree).2.output,
      (Emitter.fresh.node tree).2.output ++ "\n" ++ (Emitter.fresh.node tree).2.output] := by
  intro nodes tree
  have hnodes : ∀ n ∈ nodes, n.IsStatement := by
    have hloop : Node.IsStatement (.mk .loop (.text Predicate.subset.name) [.mk .set .absent []]) :=
      .loop .subset (.elements (by simp)) (by simp)
    have hbody : ∀ n ∈ [Node.mk .loop (.text Predicate.subset.name) [.mk .set .absent []],
        .leaf .readChar], n.IsStatement := by
      simp only [List.forall_mem_cons, List.not_mem_nil, false_imp_iff, implies_true, and_true]
      exact ⟨hloop, .readChar⟩
    simp only [nodes, List.forall_mem_cons, List.not_mem_nil, false_imp_iff, implies_true, and_true]
    exact ⟨.charTest 'a' hbody, .flip .percent⟩
  have htrees : ∀ t ∈ [tree, tree], t.IsWellFormed := by
    simp only [List.forall_mem_cons, List.not_mem_nil, false_imp_iff, implies_true, and_true]
    exact ⟨.program hnodes, .program hnodes⟩
  refine ⟨?_, ?_⟩
  · obtain ⟨after, lines, hemit, hdepth, hlisting, hlines⟩ :=
      emitted_blocks_are_sound.1 nodes ⟨[⟨0, "pass"⟩], 2⟩ hnodes
    exact ⟨after, lines, hemit, hdepth, hlisting, hlines.length_eq, hlines.isStepped⟩
  · exact (emitted_blocks_are_sound.2 [tree, tree] "PY" .fresh htrees (by rfl)).2

end SetLang
