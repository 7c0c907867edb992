import SetLang.Proofs.Listing.Layout

/-!
# Blocks can be read off a layout

A reader of block structure that has nothing to go by but the depths of the lines: the body of a
block is the lines behind its header that stand deeper. It goes over the lines from the last one, so
that the body of a header is already in one piece when the header is reached. The layout of every
program is read back as the program; in particular the body of a block is empty if and only if it
is the line that says so.
-/

namespace SetLang

/-! ## Reading -/

/-- A statement with the lines of its body, or the line of an empty body (`none`), and how deep it
stands. -/
structure Piece where
  depth : Nat
  statement? : Option Statement

namespace Piece

/-- The statement of a piece, if it has one and stands at a depth. -/
def at? (depth : Nat) (piece : Piece) : Option Statement :=
  if piece.depth = depth then piece.statement? else none

/-- The statements that pieces at a depth are. -/
def statements? (depth : Nat) (pieces : List Piece) : Option (List Statement) :=
  pieces.mapM (at? depth)

/-- The body that pieces at a depth are. No pieces are no body. -/
def body? (depth : Nat) : List Piece → Option (List Statement)
  | [] => none
  | [⟨d, none⟩] => if d = depth then some [] else none
  | pieces => statements? depth pieces

/-- Whether a piece stands deeper than a line. -/
def isDeeper (depth : Nat) (piece : Piece) : Bool :=
  depth < piece.depth

/-- Closes the block of a header with the pieces behind it that stand deeper. -/
def close? (depth : Nat) (block : List Statement → Statement) (pieces : List Piece) :
    Option (List Piece) :=
  (body? (depth + 1) (pieces.takeWhile (isDeeper depth))).map fun body =>
    ⟨depth, some (block body)⟩ :: pieces.dropWhile (isDeeper depth)

/-- Puts a line in front of the pieces behind it. -/
def add? (depth : Nat) (pieces : List Piece) : LineForm → Option (List Piece)
  | .flip e => some (⟨depth, some (.flip e)⟩ :: pieces)
  | .put c => some (⟨depth, some (.put c)⟩ :: pieces)
  | .apply o es => some (⟨depth, some (.apply o es)⟩ :: pieces)
  | .complement => some (⟨depth, some .complement⟩ :: pieces)
  | .increment => some (⟨depth, some .increment⟩ :: pieces)
  | .read => some (⟨depth, some .read⟩ :: pieces)
  | .loop p es => close? depth (.loop p es) pieces
  | .test c => close? depth (.test c) pieces
  | .pass => some (⟨depth, none⟩ :: pieces)

/-- The pieces of a layout. -/
def ofLayout? : Layout → Option (List Piece)
  | [] => some []
  | (depth, form) :: rest => (ofLayout? rest).bind fun pieces => add? depth pieces form

/-! ## What was laid out is read back -/

/-- The pieces of statements at a depth. -/
def ofStatements (depth : Nat) (ss : List Statement) : List Piece :=
  ss.map (⟨depth, some ·⟩)

/-- The pieces of a body at a depth. -/
def ofBody (depth : Nat) (body : List Statement) : List Piece :=
  if body.isEmpty then [⟨depth, none⟩] else ofStatements depth body

/-- Whether pieces do not go on with a body that is deeper than a line. -/
def EndsAt (depth : Nat) (pieces : List Piece) : Prop :=
  ∀ piece ∈ pieces.head?, piece.depth ≤ depth

theorem EndsAt.of_le {depth more : Nat} {pieces : List Piece} (h : EndsAt depth pieces)
    (hle : depth ≤ more) : EndsAt more pieces :=
  fun piece hpiece => Nat.le_trans (h piece hpiece) hle

theorem endsAt_cons (depth : Nat) (statement? : Option Statement) (pieces : List Piece) :
    EndsAt depth (⟨depth, statement?⟩ :: pieces) := by
  intro piece hpiece
  obtain rfl := Option.some.inj hpiece
  exact Nat.le_refl depth

theorem endsAt_ofStatements_append (depth : Nat) (ss : List Statement) {pieces : List Piece}
    (h : EndsAt depth pieces) : EndsAt depth (ofStatements depth ss ++ pieces) := by
  cases ss with
  | nil => exact h
  | cons s rest => exact endsAt_cons depth (some s) _

theorem statements?_ofStatements (depth : Nat) (ss : List Statement) :
    statements? depth (ofStatements depth ss) = some ss := by
  induction ss with
  | nil => rfl
  | cons s rest ih =>
    have hfirst : at? depth ⟨depth, some s⟩ = some s := if_pos rfl
    rw [statements?] at ih
    rw [ofStatements, List.map_cons, statements?, List.mapM_cons, hfirst, ← ofStatements, ih]
    rfl

/-- Empty and other bodies are told apart. -/
theorem body?_ofBody (depth : Nat) (body : List Statement) :
    body? depth (ofBody depth body) = some body := by
  cases body with
  | nil => exact if_pos rfl
  | cons s rest => exact statements?_ofStatements depth (s :: rest)

theorem isDeeper_of_mem_ofBody {depth : Nat} {body : List Statement} {piece : Piece}
    (h : piece ∈ ofBody (depth + 1) body) : piece.isDeeper depth = true := by
  have hdepth : piece.depth = depth + 1 := by
    rw [ofBody] at h
    split at h
    · rw [List.mem_singleton.1 h]
    · obtain ⟨s, -, rfl⟩ := List.mem_map.1 h
      rfl
  rw [isDeeper, decide_eq_true_iff]
  omega

/-- A block is closed at the end of its body. -/
theorem close?_ofBody {depth : Nat} {pieces : List Piece} (h : EndsAt depth pieces)
    (block : List Statement → Statement) (body : List Statement) :
    close? depth block (ofBody (depth + 1) body ++ pieces) =
      some (⟨depth, some (block body)⟩ :: pieces) := by
  have hinside : ∀ piece ∈ ofBody (depth + 1) body, piece.isDeeper depth = true :=
    fun _ => isDeeper_of_mem_ofBody
  -- what is behind the body does not stand deeper than the header
  have houtside : pieces.takeWhile (isDeeper depth) = [] ∧
      pieces.dropWhile (isDeeper depth) = pieces := by
    cases pieces with
    | nil => exact ⟨rfl, rfl⟩
    | cons piece rest =>
      have hpiece : ¬ piece.isDeeper depth = true := by
        have hle := h piece rfl
        rw [isDeeper, decide_eq_true_iff]
        omega
      exact ⟨List.takeWhile_cons_of_neg hpiece, List.dropWhile_cons_of_neg hpiece⟩
  rw [close?, List.takeWhile_append_of_pos hinside, List.dropWhile_append_of_pos hinside,
    houtside.1, houtside.2, List.append_nil, body?_ofBody, Option.map_some]

theorem ofLayout?_cons {depth : Nat} {form : LineForm} {layout : Layout} {pieces : List Piece}
    (h : ofLayout? layout = some pieces) :
    ofLayout? ((depth, form) :: layout) = add? depth pieces form := by
  rw [ofLayout?, h, Option.bind_some]

/-- A body is read if its statements are. -/
theorem ofLayout?_bodyLayout {depth : Nat} {body : List Statement} {rest : Layout}
    {pieces : List Piece} (hrest : ofLayout? rest = some pieces)
    (hbody : ofLayout? (layoutOf depth body ++ rest) = some (ofStatements depth body ++ pieces)) :
    ofLayout? (bodyLayout depth body (layoutOf depth body) ++ rest) =
      some (ofBody depth body ++ pieces) := by
  cases body with
  | nil => exact ofLayout?_cons hrest
  | cons s more => exact hbody

mutual

/-- The layout of a statement is read as the statement, whatever does not belong to it is behind. -/
theorem ofLayout?_layout : ∀ (s : Statement) {depth : Nat} {rest : Layout} {pieces : List Piece},
    ofLayout? rest = some pieces → EndsAt depth pieces →
      ofLayout? (s.layout depth ++ rest) = some (⟨depth, some s⟩ :: pieces)
  | .flip _, _, _, _, hrest, _ => ofLayout?_cons hrest
  | .put _, _, _, _, hrest, _ => ofLayout?_cons hrest
  | .apply _ _, _, _, _, hrest, _ => ofLayout?_cons hrest
  | .complement, _, _, _, hrest, _ => ofLayout?_cons hrest
  | .increment, _, _, _, hrest, _ => ofLayout?_cons hrest
  | .read, _, _, _, hrest, _ => ofLayout?_cons hrest
  | .loop p es body, depth, rest, pieces, hrest, hends => by
    have hstatements :=
      ofLayout?_layoutOf body hrest (hends.of_le (Nat.le_succ depth))
    have hbody := ofLayout?_bodyLayout hrest hstatements
    rw [Statement.layout, List.cons_append, ofLayout?_cons hbody]
    exact close?_ofBody hends (.loop p es) body
  | .test c body, depth, rest, pieces, hrest, hends => by
    have hstatements :=
      ofLayout?_layoutOf body hrest (hends.of_le (Nat.le_succ depth))
    have hbody := ofLayout?_bodyLayout hrest hstatements
    rw [Statement.layout, List.cons_append, ofLayout?_cons hbody]
    exact close?_ofBody hends (.test c) body

/-- The layout of statements is read as the statements. -/
theorem ofLayout?_layoutOf : ∀ (ss : List Statement) {depth : Nat} {rest : Layout}
    {pieces : List Piece}, ofLayout? rest = some pieces → EndsAt depth pieces →
      ofLayout? (layoutOf depth ss ++ rest) = some (ofStatements depth ss ++ pieces)
  | [], _, _, _, hrest, _ => hrest
  | s :: more, depth, rest, pieces, hrest, hends => by
    -- the statements behind the first one are read before it
    have hmore := ofLayout?_layoutOf more hrest hends
    rw [layoutOf, List.append_assoc]
    exact ofLayout?_layout s hmore (endsAt_ofStatements_append depth more hends)

end

end Piece

/-- The program that a layout is of. -/
def Layout.program? (layout : Layout) : Option Program :=
  (Piece.ofLayout? layout).bind (Piece.statements? 0)

/-- A program can be read off its layout. -/
theorem Layout.program?_layoutOf (program : Program) : program? (layoutOf 0 program) = some program := by
  have hnone : Piece.EndsAt 0 [] := by
    intro piece hpiece
    cases hpiece
  have hread : Piece.ofLayout? (layoutOf 0 program ++ []) =
      some (Piece.ofStatements 0 program ++ []) :=
    Piece.ofLayout?_layoutOf program rfl hnone
  rw [List.append_nil, List.append_nil] at hread
  rw [program?, hread, Option.bind_some, Piece.statements?_ofStatements]

end SetLang
