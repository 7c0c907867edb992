import SetLang.Proofs.Listing.Layout
import Mathlib.Data.List.Basic
import Mathlib.Order.Bounds.Basic

/-!
# Nesting of blocks

How deep blocks stand in one another, in a tree and in the lines that it is written as. Every line
of a program is indented by the blocks around it, and the check of a listing counts the loops around
a line from the indentation alone. So a listing is refused exactly if the tree is nested too deep,
at the first line where it is.
-/

namespace SetLang

/-! ## Nesting of trees -/

namespace Node

mutual

/-- How many nodes of the counted kinds stand in one another at most. -/
def nesting (counted : List NodeKind) : Node → Nat
  | mk kind _ children => (if kind ∈ counted then 1 else 0) + nestingAll counted children

/-- The greatest nesting of some trees. -/
def nestingAll (counted : List NodeKind) : List Node → Nat
  | [] => 0
  | n :: rest => max (nesting counted n) (nestingAll counted rest)

end

/-- The kinds of nodes that have a body of their own. -/
def blockKinds : List NodeKind := [.loop, .charTest]

/-- The kind of nodes that repeat their body. -/
def loopKinds : List NodeKind := [.loop]

end Node

/-! ## Sites of lines -/

/-- Where a line of a program stands: how many blocks and how many loops are around it, and whether
it begins a loop. -/
structure Site where
  blocks : Nat
  loops : Nat
  isLoop : Bool

/-- The sites of a body, given those of its statements; an empty body has a line of its own. -/
def bodySites (blocks loops : Nat) (body : List Statement) (sites : List Site) : List Site :=
  if body.isEmpty then [⟨blocks, loops, false⟩] else sites

mutual

/-- The sites of the lines of a statement inside some blocks and loops. -/
def Statement.sites (blocks loops : Nat) : Statement → List Site
  | .loop _ _ body =>
    ⟨blocks, loops, true⟩ ::
      bodySites (blocks + 1) (loops + 1) body (sitesOf (blocks + 1) (loops + 1) body)
  | .test _ body =>
    ⟨blocks, loops, false⟩ ::
      bodySites (blocks + 1) loops body (sitesOf (blocks + 1) loops body)
  | .flip _ | .put _ | .apply _ _ | .complement | .increment | .read => [⟨blocks, loops, false⟩]

/-- The sites of the lines of some statements. -/
def sitesOf (blocks loops : Nat) : List Statement → List Site
  | [] => []
  | s :: rest => s.sites blocks loops ++ sitesOf blocks loops rest

end

/-- The sites of the lines of a program. -/
def Program.sites (program : Program) : List Site :=
  sitesOf 0 0 program

/-! ## Sites by indentation -/

/-- The sites of the lines of a listing, given the depths of the loops around it, innermost
first. A loop is left where a line stands no deeper than its header. -/
def Listing.sites (around : List Nat) : Listing → List Site
  | [] => []
  | line :: rest =>
    let around := around.dropWhile (line.depth ≤ ·)
    ⟨line.depth, around.length, line.isLoop⟩ ::
      sites (if line.isLoop then line.depth :: around else around) rest

/-- Dropping by a class leaves nothing to do for a narrower one. -/
theorem dropWhile_dropWhile_of_imp {α : Type} {p q : α → Bool} (h : ∀ a, q a = true → p a = true)
    (l : List α) : (l.dropWhile p).dropWhile q = l.dropWhile p := by
  induction l with
  | nil => rfl
  | cons a l ih =>
    by_cases hp : p a = true
    · rw [List.dropWhile_cons_of_pos hp, ih]
    · rw [List.dropWhile_cons_of_neg hp, List.dropWhile_cons_of_neg fun hq => hp (h a hq)]

/-- Dropping by a class may be begun with a narrower one. -/
theorem dropWhile_dropWhile_of_imp' {α : Type} {p q : α → Bool} (h : ∀ a, p a = true → q a = true)
    (l : List α) : (l.dropWhile p).dropWhile q = l.dropWhile q := by
  induction l with
  | nil => rfl
  | cons a l ih =>
    by_cases hp : p a = true
    · rw [List.dropWhile_cons_of_pos hp, List.dropWhile_cons_of_pos (h a hp), ih]
    · rw [List.dropWhile_cons_of_neg hp]

namespace Listing

variable {depth : Nat} {around : List Nat} {rest : Listing}

/-- Loops that stand at a depth or below it are over where no deeper line follows. -/
theorem sites_dropWhile (hrest : ∀ l ∈ rest.head?, l.depth ≤ depth) :
    sites (around.dropWhile (depth ≤ ·)) rest = sites around rest := by
  cases rest with
  | nil => rfl
  | cons line rest =>
    have hle := hrest line rfl
    have hdrop : (around.dropWhile (depth ≤ ·)).dropWhile (line.depth ≤ ·) =
        around.dropWhile (line.depth ≤ ·) :=
      dropWhile_dropWhile_of_imp' (fun a ha => by
        rw [decide_eq_true_iff] at ha ⊢
        exact Nat.le_trans hle ha) around
    rw [sites, sites, hdrop]

/-- Blocks that are over where the rest begins do not matter to it. -/
theorem sites_cons_dropWhile (hrest : ∀ l ∈ rest.head?, l.depth ≤ depth) :
    sites (depth :: around.dropWhile (depth ≤ ·)) rest = sites around rest := by
  refine Eq.trans ?_ (sites_dropWhile hrest)
  cases rest with
  | nil => rfl
  | cons line rest =>
    have hdrop (l : List Nat) : (depth :: l).dropWhile (line.depth ≤ ·) =
        l.dropWhile (line.depth ≤ ·) :=
      List.dropWhile_cons_of_pos (decide_eq_true (hrest line rfl))
    rw [sites, sites, hdrop]

/-- One level deeper the same loops are around. -/
theorem dropWhile_succ (depth : Nat) (around : List Nat) :
    (around.dropWhile (depth ≤ ·)).dropWhile (depth + 1 ≤ ·) = around.dropWhile (depth ≤ ·) :=
  dropWhile_dropWhile_of_imp (fun a ha => by
    rw [decide_eq_true_iff] at ha ⊢
    exact Nat.le_of_succ_le ha) around

end Listing

/-! ## Sites of layouts -/

/-- A line of code begins a loop if it says so. -/
def LineForm.isLoop : LineForm → Bool
  | loop _ _ => true
  | _ => false

/-- A line of code reads as a loop if its form is one. -/
theorem LineForm.isLoop_code (depth : Nat) (form : LineForm) :
    Line.isLoop ⟨depth, form.code⟩ = form.isLoop := by
  -- every other form begins with another letter
  have hother (first : Char) {text : String} (hfirst : (text.toList).head? = some first)
      (hne : first ≠ 'w') : Line.isLoop ⟨depth, text⟩ = false := by
    obtain ⟨rest, htext⟩ := List.head?_eq_some_iff.1 hfirst
    rw [Line.isLoop, htext]
    simp [List.isPrefixOf, hne.symm]
  cases form with
  | loop p es =>
    simp [Line.isLoop, code, isLoop, List.isPrefixOf]
  | test c => exact hother 'i' (by simp [code]) (by decide)
  | pass => exact hother 'p' (by simp [code]) (by decide)
  | flip | put | apply | complement | increment | read =>
    exact hother 'm' (by simp [code, machineCall, machineName]) (by decide)

/-- The first entry of a layout gives the first line. -/
@[simp] theorem Layout.listing_cons (depth : Nat) (form : LineForm) (layout : Layout) :
    listing ((depth, form) :: layout) = ⟨depth, form.code⟩ :: layout.listing := rfl

/-- The first line of a statement stands at the depth of the statement. -/
theorem Statement.exists_layout_eq (s : Statement) (depth : Nat) :
    ∃ form more, s.layout depth = (depth, form) :: more := by
  cases s <;> exact ⟨_, _, by rw [layout]⟩

/-- No line behind a statement is deeper than those behind all statements, or than the next one. -/
theorem depth_le_of_mem_head?_layoutOf {depth : Nat} {ss : List Statement} {rest : Listing}
    (hrest : ∀ l ∈ rest.head?, l.depth ≤ depth) :
    ∀ l ∈ ((layoutOf depth ss).listing ++ rest).head?, l.depth ≤ depth := by
  cases ss with
  | nil => exact hrest
  | cons s ss =>
    obtain ⟨form, more, hlayout⟩ := s.exists_layout_eq depth
    intro l hl
    rw [layoutOf, hlayout, List.cons_append, Layout.listing_cons] at hl
    obtain rfl := Option.some.inj hl
    exact Nat.le_refl depth

section

variable {depth : Nat} {around : List Nat} {rest : Listing}

/-- A line that begins no loop changes nothing for the lines behind it. -/
theorem sites_cons_line (form : LineForm) (hform : form.isLoop = false)
    (hrest : ∀ l ∈ rest.head?, l.depth ≤ depth) :
    Listing.sites around (⟨depth, form.code⟩ :: rest) =
      ⟨depth, (around.dropWhile (depth ≤ ·)).length, false⟩ :: Listing.sites around rest := by
  rw [Listing.sites, LineForm.isLoop_code, hform]
  simp only [Bool.false_eq_true, if_false]
  rw [Listing.sites_dropWhile hrest]

/-- The lines of a body stand where its statements do, or its own line does. -/
theorem sites_bodyLayout {body : List Statement} (hrest : ∀ l ∈ rest.head?, l.depth ≤ depth)
    (hbody : Listing.sites around ((layoutOf depth body).listing ++ rest) =
      sitesOf depth (around.dropWhile (depth ≤ ·)).length body ++ Listing.sites around rest) :
    Listing.sites around ((bodyLayout depth body (layoutOf depth body)).listing ++ rest) =
      bodySites depth (around.dropWhile (depth ≤ ·)).length body
        (sitesOf depth (around.dropWhile (depth ≤ ·)).length body) ++
      Listing.sites around rest := by
  cases body with
  | nil => exact sites_cons_line .pass rfl hrest
  | cons s body => exact hbody

end

mutual

/-- The lines of a statement stand where the statement has them, with the loops around it that are
left where it begins. -/
theorem Statement.sites_layout : ∀ (s : Statement) (depth : Nat) (around : List Nat)
    {rest : Listing}, (∀ l ∈ rest.head?, l.depth ≤ depth) →
    Listing.sites around ((s.layout depth).listing ++ rest) =
      s.sites depth (around.dropWhile (depth ≤ ·)).length ++ Listing.sites around rest
  | .loop p es body, depth, around, rest, hrest => by
    have hdeeper : ∀ l ∈ rest.head?, l.depth ≤ depth + 1 :=
      fun l hl => Nat.le_succ_of_le (hrest l hl)
    -- inside, the loop itself is around as well
    have hinside : (depth :: around.dropWhile (depth ≤ ·)).dropWhile (depth + 1 ≤ ·) =
        depth :: around.dropWhile (depth ≤ ·) :=
      List.dropWhile_cons_of_neg (by simp)
    have hbody := sites_bodyLayout hdeeper
      (sites_layoutOf body (depth + 1) (depth :: around.dropWhile (depth ≤ ·)) hdeeper)
    rw [hinside, Listing.sites_cons_dropWhile hrest] at hbody
    rw [Statement.layout, Statement.sites, Layout.listing_cons, List.cons_append, Listing.sites,
      LineForm.isLoop_code, List.cons_append]
    exact congrArg _ hbody
  | .test c body, depth, around, rest, hrest => by
    have hdeeper : ∀ l ∈ rest.head?, l.depth ≤ depth + 1 :=
      fun l hl => Nat.le_succ_of_le (hrest l hl)
    have hbody := sites_bodyLayout hdeeper
      (sites_layoutOf body (depth + 1) (around.dropWhile (depth ≤ ·)) hdeeper)
    rw [Listing.dropWhile_succ, Listing.sites_dropWhile hrest] at hbody
    rw [Statement.layout, Statement.sites, Layout.listing_cons, List.cons_append, Listing.sites,
      LineForm.isLoop_code, List.cons_append]
    exact congrArg _ hbody
  | .flip e, _, _, _, hrest => sites_cons_line (.flip e) rfl hrest
  | .put c, _, _, _, hrest => sites_cons_line (.put c) rfl hrest
  | .apply o es, _, _, _, hrest => sites_cons_line (.apply o es) rfl hrest
  | .complement, _, _, _, hrest => sites_cons_line .complement rfl hrest
  | .increment, _, _, _, hrest => sites_cons_line .increment rfl hrest
  | .read, _, _, _, hrest => sites_cons_line .read rfl hrest

/-- The sites of the lines of statements are those that the statements call for. -/
theorem sites_layoutOf : ∀ (ss : List Statement) (depth : Nat) (around : List Nat)
    {rest : Listing}, (∀ l ∈ rest.head?, l.depth ≤ depth) →
    Listing.sites around ((layoutOf depth ss).listing ++ rest) =
      sitesOf depth (around.dropWhile (depth ≤ ·)).length ss ++ Listing.sites around rest
  | [], _, _, _, _ => rfl
  | s :: ss, depth, around, rest, hrest => by
    rw [layoutOf, Layout.listing_append, List.append_assoc,
      s.sites_layout depth around (depth_le_of_mem_head?_layoutOf hrest),
      sites_layoutOf ss depth around hrest, sitesOf, List.append_assoc]

end

/-- The lines of a program stand where the program has them. -/
theorem Program.sites_listing (program : Program) :
    Listing.sites [] (layoutOf 0 program).listing = program.sites := by
  have hend : ∀ l ∈ ([] : Listing).head?, l.depth ≤ 0 := by simp
  have hsites := sites_layoutOf program 0 [] hend
  rwa [List.append_nil, Listing.sites, List.append_nil] at hsites

/-! ## Nesting by sites -/

section

variable {counted : List NodeKind}

/-- A node of a kind that is not counted nests as its children do. -/
theorem Node.nesting_of_notMem {kind : NodeKind} (h : kind ∉ counted) (value : Value)
    (children : List Node) :
    (mk kind value children).nesting counted = nestingAll counted children := by
  rw [nesting, if_neg h, Nat.zero_add]

/-- One node nests as a list of it does. -/
@[simp]
theorem Node.nestingAll_singleton (n : Node) : nestingAll counted [n] = n.nesting counted := by
  rw [nestingAll, nestingAll, Nat.max_zero]

variable (hcounted : ∀ k ∈ counted, k ∈ Node.blockKinds)

include hcounted

/-- Nothing is nested in an expression. -/
@[simp] theorem Expr.nesting_toNode (e : Expr) : e.toNode.nesting counted = 0 := by
  cases e with
  | literal n => exact Node.nesting_of_notMem (fun h => absurd (hcounted _ h) (by decide)) _ []
  | percent => exact Node.nesting_of_notMem (fun h => absurd (hcounted _ h) (by decide)) _ []

/-- Nothing is nested in a set. -/
theorem nesting_setToNode (es : List Expr) : (setToNode es).nesting counted = 0 := by
  rw [setToNode, Node.nesting_of_notMem fun h => absurd (hcounted _ h) (by decide)]
  induction es with
  | nil => rfl
  | cons e es ih => simp [Node.nestingAll, e.nesting_toNode hcounted, ih]

/-- Only loops and character tests nest, each by its body. -/
theorem Statement.nesting_toNode (s : Statement) :
    s.toNode.nesting counted =
      match s with
      | .loop _ _ body =>
        (if .loop ∈ counted then 1 else 0) + Node.nestingAll counted (toNodes body)
      | .test _ body =>
        (if .charTest ∈ counted then 1 else 0) + Node.nestingAll counted (toNodes body)
      | _ => 0 := by
  have hnot (kind : NodeKind) (hkind : kind ∉ Node.blockKinds) : kind ∉ counted :=
    fun h => hkind (hcounted kind h)
  cases s with
  | flip e =>
    rw [toNode, Node.nesting_of_notMem (hnot _ (by decide)), Node.nestingAll_singleton]
    exact e.nesting_toNode hcounted
  | apply o es =>
    rw [toNode, Node.nesting_of_notMem (hnot _ (by decide)), Node.nestingAll_singleton]
    exact nesting_setToNode hcounted es
  | loop p es body =>
    rw [toNode, Node.nesting, Node.nestingAll, nesting_setToNode hcounted, Nat.zero_max]
  | test c body => rw [toNode, Node.nesting]
  | put c => exact Node.nesting_of_notMem (hnot _ (by decide)) _ []
  | complement => exact Node.nesting_of_notMem (hnot _ (by decide)) _ []
  | increment => exact Node.nesting_of_notMem (hnot _ (by decide)) _ []
  | read => exact Node.nesting_of_notMem (hnot _ (by decide)) _ []

end

theorem Node.loopKinds_subset : ∀ k ∈ loopKinds, k ∈ blockKinds := by decide

/-- Something is found in two lists if it is found in one of them. -/
theorem exists_mem_append_iff {α : Type} {p : α → Prop} {xs ys : List α} :
    (∃ a ∈ xs ++ ys, p a) ↔ (∃ a ∈ xs, p a) ∨ ∃ a ∈ ys, p a := by
  simp only [List.mem_append, or_and_right, exists_or]

mutual

/-- Some line of a statement stands inside a number of blocks if that many are around the statement
and nested in it. -/
theorem Statement.exists_blocks_iff : ∀ (s : Statement) (blocks loops n : Nat),
    (∃ site ∈ s.sites blocks loops, n ≤ site.blocks) ↔
      n ≤ blocks + s.toNode.nesting Node.blockKinds
  | .loop p es body, blocks, loops, n => by
    have hbody := exists_blocks_iff_of_body body (blocks + 1) (loops + 1) n
    rw [Statement.sites, Statement.nesting_toNode fun _ => id, List.exists_mem_cons_iff, hbody]
    simp only [Node.blockKinds, List.mem_cons, true_or, if_true]
    omega
  | .test c body, blocks, loops, n => by
    have hbody := exists_blocks_iff_of_body body (blocks + 1) loops n
    rw [Statement.sites, Statement.nesting_toNode fun _ => id, List.exists_mem_cons_iff, hbody]
    simp only [Node.blockKinds, List.mem_cons, true_or, or_true, if_true]
    omega
  | .flip _, blocks, loops, n | .put _, blocks, loops, n | .apply _ _, blocks, loops, n
  | .complement, blocks, loops, n | .increment, blocks, loops, n | .read, blocks, loops, n => by
    rw [Statement.nesting_toNode fun _ => id]
    simp [Statement.sites]

/-- Some line of a body stands inside a number of blocks if that many are around the body and nested
in it. -/
theorem exists_blocks_iff_of_body : ∀ (body : List Statement) (blocks loops n : Nat),
    (∃ site ∈ bodySites blocks loops body (sitesOf blocks loops body), n ≤ site.blocks) ↔
      n ≤ blocks + Node.nestingAll Node.blockKinds (toNodes body)
  | [], blocks, loops, n => by simp [bodySites, toNodes, Node.nestingAll]
  | s :: rest, blocks, loops, n => by
    have hs := s.exists_blocks_iff blocks loops n
    have hrest := exists_blocks_iff_of_body rest blocks loops n
    show (∃ site ∈ s.sites blocks loops ++ sitesOf blocks loops rest, n ≤ site.blocks) ↔
      n ≤ blocks + max (s.toNode.nesting _) (Node.nestingAll _ (toNodes rest))
    rw [exists_mem_append_iff, hs]
    cases rest with
    | nil => simp [sitesOf, toNodes, Node.nestingAll]
    | cons s' rest =>
      rw [bodySites, if_neg (by simp)] at hrest
      rw [hrest]
      omega

end

mutual

/-- Some loop of a statement stands inside a number of loops if more than that many are around the
statement and nested in it. -/
theorem Statement.exists_loops_iff : ∀ (s : Statement) (blocks : Nat) {loops n : Nat}, loops ≤ n →
    ((∃ site ∈ s.sites blocks loops, site.isLoop = true ∧ n ≤ site.loops) ↔
      n < loops + s.toNode.nesting Node.loopKinds)
  | .loop p es body, blocks, loops, n, h => by
    rw [Statement.sites, Statement.nesting_toNode Node.loopKinds_subset, List.exists_mem_cons_iff]
    simp only [Node.loopKinds, List.mem_singleton, if_true, true_and]
    rcases Nat.lt_or_eq_of_le h with hlt | rfl
    · have hbody := exists_loops_iff_of_body body (blocks + 1) (Nat.succ_le_of_lt hlt)
      rw [Node.loopKinds] at hbody
      rw [hbody]
      omega
    · -- the loop itself stands inside that many
      exact iff_of_true (.inl (Nat.le_refl _)) (by omega)
  | .test c body, blocks, loops, n, h => by
    have hbody := exists_loops_iff_of_body body (blocks + 1) h
    rw [Statement.sites, Statement.nesting_toNode Node.loopKinds_subset, List.exists_mem_cons_iff,
      hbody]
    simp [Node.loopKinds]
  | .flip _, blocks, loops, n, h | .put _, blocks, loops, n, h | .apply _ _, blocks, loops, n, h
  | .complement, blocks, loops, n, h | .increment, blocks, loops, n, h
  | .read, blocks, loops, n, h => by
    rw [Statement.nesting_toNode Node.loopKinds_subset]
    simpa [Statement.sites] using h

/-- Some loop of a body stands inside a number of loops if more than that many are around the body
and nested in it. -/
theorem exists_loops_iff_of_body : ∀ (body : List Statement) (blocks : Nat) {loops n : Nat},
    loops ≤ n →
    ((∃ site ∈ bodySites blocks loops body (sitesOf blocks loops body),
        site.isLoop = true ∧ n ≤ site.loops) ↔
      n < loops + Node.nestingAll Node.loopKinds (toNodes body))
  | [], blocks, loops, n, h => by simpa [bodySites, toNodes, Node.nestingAll] using h
  | s :: rest, blocks, loops, n, h => by
    have hs := s.exists_loops_iff blocks h
    have hrest := exists_loops_iff_of_body rest blocks h
    show (∃ site ∈ s.sites blocks loops ++ sitesOf blocks loops rest,
        site.isLoop = true ∧ n ≤ site.loops) ↔
      n < loops + max (s.toNode.nesting _) (Node.nestingAll _ (toNodes rest))
    rw [exists_mem_append_iff, hs]
    cases rest with
    | nil => simp [sitesOf, toNodes, Node.nestingAll]
    | cons s' rest =>
      rw [bodySites, if_neg (by simp)] at hrest
      rw [hrest]
      omega

end

namespace Program

/-- The sites of a program that has statements are those of a body at the margin. -/
theorem exists_sites_iff {p : Site → Prop} (program : Program) (hempty : ¬ p ⟨0, 0, false⟩) :
    (∃ site ∈ program.sites, p site) ↔
      ∃ site ∈ bodySites 0 0 program (sitesOf 0 0 program), p site := by
  cases program with
  | nil => simpa [sites, bodySites, sitesOf] using hempty
  | cons s rest => rfl

/-- Some line of a program stands inside a number of blocks if that many are nested in its tree. -/
theorem exists_blocks_iff (program : Program) {n : Nat} (hn : 0 < n) :
    (∃ site ∈ program.sites, n ≤ site.blocks) ↔ n ≤ program.toNode.nesting Node.blockKinds := by
  rw [exists_sites_iff program (Nat.not_le.2 hn), exists_blocks_iff_of_body, toNode,
    Node.nesting_of_notMem (by decide), Nat.zero_add]

/-- Some loop of a program stands inside a number of loops if more than that many are nested in its
tree. -/
theorem exists_loops_iff (program : Program) (n : Nat) :
    (∃ site ∈ program.sites, site.isLoop = true ∧ n ≤ site.loops) ↔
      n < program.toNode.nesting Node.loopKinds := by
  rw [exists_sites_iff program (by simp), exists_loops_iff_of_body _ _ (Nat.zero_le n), toNode,
    Node.nesting_of_notMem (by decide), Nat.zero_add]

end Program

/-- Loops in one another, around a statement. -/
def nestedLoops : Nat → Program
  | 0 => [.increment]
  | count + 1 => [.loop .subset [] (nestedLoops count)]

/-- Loops in one another are as many as are nested. -/
theorem nesting_nestedLoops {counted : List NodeKind} (hloop : .loop ∈ counted)
    (hcounted : ∀ k ∈ counted, k ∈ Node.blockKinds) (count : Nat) :
    (nestedLoops count).toNode.nesting counted = count := by
  have hprogram : .program ∉ counted := fun h => absurd (hcounted _ h) (by decide)
  induction count with
  | zero =>
    rw [Program.toNode, Node.nesting_of_notMem hprogram]
    exact (Node.nestingAll_singleton _).trans (Statement.nesting_toNode hcounted .increment)
  | succ count ih =>
    rw [Program.toNode, Node.nesting_of_notMem hprogram] at ih ⊢
    refine (Node.nestingAll_singleton _).trans ?_
    rw [Statement.nesting_toNode hcounted, if_pos hloop]
    show 1 + Node.nestingAll counted (toNodes (nestedLoops count)) = count + 1
    rw [ih, Nat.add_comm]

/-! ## Refused listings -/

namespace Listing

/-- The depth of a line is the number of blocks around it. -/
theorem map_depth_eq (around : List Nat) (listing : Listing) :
    listing.map Line.depth = (sites around listing).map Site.blocks := by
  induction listing generalizing around with
  | nil => rfl
  | cons line rest ih => exact congrArg (line.depth :: ·) (ih _)

/-- The loops among the lines are the loops among the sites. -/
theorem map_isLoop_eq (around : List Nat) (listing : Listing) :
    listing.map Line.isLoop = (sites around listing).map Site.isLoop := by
  induction listing generalizing around with
  | nil => rfl
  | cons line rest ih => exact congrArg (line.isLoop :: ·) (ih _)

/-- Lines are refused for the first one that is indented too deep. -/
theorem tooDeepFrom_eq (number : Nat) (listing : Listing) :
    tooDeepFrom number listing =
      (listing.findIdx? (indentLimit ≤ ·.depth)).map (number + ·) := by
  induction listing generalizing number with
  | nil => rfl
  | cons line rest ih =>
    rw [tooDeepFrom, List.findIdx?_cons]
    simp only [decide_eq_true_eq]
    split
    · rfl
    · rw [ih (number + 1), Option.map_map]
      congr 1
      funext k
      exact Nat.add_right_comm number 1 k

/-- Lines are refused for the first loop inside too many loops. -/
theorem tooNestedFrom_eq (number : Nat) (around : List Nat) (listing : Listing) :
    tooNestedFrom number around listing =
      ((sites around listing).findIdx? fun s => s.isLoop = true ∧ loopLimit ≤ s.loops).map
        (number + ·) := by
  induction listing generalizing number around with
  | nil => rfl
  | cons line rest ih =>
    have hnext (k : Nat) : number + 1 + k = number + (k + 1) := by omega
    rw [tooNestedFrom, sites, List.findIdx?_cons]
    cases hloop : line.isLoop with
    | false => simp [ih, Function.comp_def, hnext]
    | true =>
      by_cases hlimit : loopLimit ≤ (around.dropWhile (line.depth ≤ ·)).length
      · simp [hlimit]
      · simp [hlimit, ih, Function.comp_def, hnext]

end Listing

/-- What is found first has the least index. -/
theorem exists_isLeast_findIdx? {α : Type} {p : α → Prop} [DecidablePred p] {l : List α}
    (h : ∃ a ∈ l, p a) :
    ∃ k, l.findIdx? (fun a => p a) = some k ∧ IsLeast {k | ∃ a, l[k]? = some a ∧ p a} k := by
  have hsome : (l.findIdx? fun a => p a).isSome = true := by
    rw [List.findIdx?_isSome, List.any_eq_true]
    simpa using h
  obtain ⟨k, hk⟩ := Option.isSome_iff_exists.1 hsome
  obtain ⟨hlt, hp, hbefore⟩ := List.findIdx?_eq_some_iff_getElem.1 hk
  refine ⟨k, hk, ⟨l[k], List.getElem?_eq_getElem hlt, of_decide_eq_true hp⟩, ?_⟩
  rintro j ⟨a, ha, hpa⟩
  by_contra hnot
  obtain ⟨hj, rfl⟩ := List.getElem?_eq_some_iff.1 ha
  exact hbefore j (Nat.not_le.1 hnot) (decide_eq_true hpa)

namespace Program

variable {program : Program}

/-- Some line of a program is indented to a depth if that many blocks are nested in its tree. -/
theorem exists_depth_iff (program : Program) {n : Nat} (hn : 0 < n) :
    (∃ line ∈ (layoutOf 0 program).listing, n ≤ line.depth) ↔
      n ≤ program.toNode.nesting Node.blockKinds := by
  have hdepths := Listing.map_depth_eq [] (layoutOf 0 program).listing
  rw [program.sites_listing] at hdepths
  have hmem : (∃ d ∈ (layoutOf 0 program).listing.map Line.depth, n ≤ d) ↔
      ∃ d ∈ program.sites.map Site.blocks, n ≤ d := by rw [hdepths]
  rw [← program.exists_blocks_iff hn]
  simpa using hmem

/-- The first loop too many is found by the sites of the program. -/
theorem tooNestedFrom_listing (program : Program) :
    Listing.tooNestedFrom 1 [] (layoutOf 0 program).listing =
      (program.sites.findIdx? fun s => s.isLoop = true ∧ Listing.loopLimit ≤ s.loops).map
        (1 + ·) := by
  rw [Listing.tooNestedFrom_eq, program.sites_listing]

/-- No line is too deep if blocks are not nested too far. -/
theorem tooDeepFrom_eq_none
    (h : program.toNode.nesting Node.blockKinds < Listing.indentLimit) :
    Listing.tooDeepFrom 1 (layoutOf 0 program).listing = none := by
  have hnone : ¬ ∃ line ∈ (layoutOf 0 program).listing, Listing.indentLimit ≤ line.depth := by
    rw [program.exists_depth_iff (by decide)]
    exact Nat.not_le.2 h
  rw [Listing.tooDeepFrom_eq, Option.map_eq_none_iff, List.findIdx?_eq_none_iff]
  intro line hline
  exact decide_eq_false fun hle => hnone ⟨line, hline, hle⟩

/-- Too many nested blocks are refused at the first line that is indented too deep. -/
theorem check_of_blocks (h : Listing.indentLimit ≤ program.toNode.nesting Node.blockKinds) :
    ∃ k, IsLeast {k | ∃ line, (layoutOf 0 program).listing[k]? = some line ∧
        Listing.indentLimit ≤ line.depth} k ∧
      (layoutOf 0 program).listing.check = .error (.indentedTooDeep (k + 1)) := by
  obtain ⟨k, hfind, hleast⟩ :=
    exists_isLeast_findIdx? ((program.exists_depth_iff (by decide)).2 h)
  refine ⟨k, hleast, ?_⟩
  rw [Listing.check, Listing.tooDeepFrom_eq, hfind, Nat.add_comm k]
  rfl

/-- Otherwise too many nested loops are refused at the first loop inside too many of them. -/
theorem check_of_loops (h : program.toNode.nesting Node.blockKinds < Listing.indentLimit)
    (hloops : Listing.loopLimit < program.toNode.nesting Node.loopKinds) :
    ∃ k, IsLeast {k | ∃ site, program.sites[k]? = some site ∧ site.isLoop = true ∧
        Listing.loopLimit ≤ site.loops} k ∧
      (layoutOf 0 program).listing.check = .error (.nestedTooDeep (k + 1)) := by
  obtain ⟨k, hfind, hleast⟩ := exists_isLeast_findIdx? ((program.exists_loops_iff _).2 hloops)
  refine ⟨k, hleast, ?_⟩
  rw [Listing.check, tooDeepFrom_eq_none h, tooNestedFrom_listing, hfind, Nat.add_comm k]
  rfl

/-- Everything else is allowed to run. -/
theorem check_of_le (h : program.toNode.nesting Node.blockKinds < Listing.indentLimit)
    (hloops : program.toNode.nesting Node.loopKinds ≤ Listing.loopLimit) :
    (layoutOf 0 program).listing.check = .ok () := by
  have hnone : Listing.tooNestedFrom 1 [] (layoutOf 0 program).listing = none := by
    rw [tooNestedFrom_listing, Option.map_eq_none_iff, List.findIdx?_eq_none_iff]
    intro site hsite
    refine decide_eq_false fun hsome => ?_
    exact absurd ((program.exists_loops_iff _).1 ⟨site, hsite, hsome⟩) (Nat.not_lt.2 hloops)
  rw [Listing.check, tooDeepFrom_eq_none h, hnone]

end Program

end SetLang
