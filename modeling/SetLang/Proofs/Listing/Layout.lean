import SetLang.Listing.Emitter
import SetLang.Program.Basic

/-!
# Layout of programs

The lines that a program is written as, by what each of them says and how deep it stands. A statement
that holds no others is one line, a block is a header with the lines of its body one level deeper,
and an empty body has a line of its own. The emitter writes exactly these lines and comes back to
the depth at which it started.
-/

namespace SetLang

/-! ## Code -/

/-- The code of an expression. -/
def Expr.code : Expr → String
  | literal n => Integer.text n
  | percent => "machine.var"

/-- The code of a set. -/
def setCode (elements : List Expr) : String :=
  "ZSet.of(" ++ Text.joinWith ", " (elements.map Expr.code) ++ ")"

/-- The code of a character. -/
def charCode (c : Char) : String :=
  Text.quoted (String.ofList [c])

/-- The code of a name and a set, as arguments. -/
def namedSetCode (name : String) (elements : List Expr) : String :=
  Text.quoted name ++ ", " ++ setCode elements

/-- What a line says: a statement without a body, the header of a block, or that a body is empty. -/
inductive LineForm where
  | flip (element : Expr)
  | put (c : Char)
  | apply (operator : SetOperator) (operand : List Expr)
  | complement
  | increment
  | read
  | loop (predicate : Predicate) (guard : List Expr)
  | test (c : Char)
  | pass

/-- The code of a line. -/
def LineForm.code : LineForm → String
  | flip e => machineCall "flip" e.code
  | put c => machineCall "put" (charCode c)
  | apply o es => machineCall "apply" (namedSetCode o.name es)
  | complement => machineCall "complement" ""
  | increment => machineCall "increment" ""
  | read => machineCall "read" ""
  | loop p es => "while " ++ machineCall "holds" (namedSetCode p.name es) ++ ":"
  | test c => "if " ++ machineCall "matches" (charCode c) ++ ":"
  | pass => "pass"

/-! ## Layout -/

/-- What the lines of a listing say, and how deep each of them stands. -/
abbrev Layout := List (Nat × LineForm)

/-- The lines of a layout. -/
def Layout.listing (layout : Layout) : Listing :=
  layout.map fun (depth, form) => ⟨depth, form.code⟩

@[simp] theorem Layout.listing_append (layout more : Layout) :
    listing (layout ++ more) = layout.listing ++ more.listing :=
  List.map_append

/-- The layout of a body at a depth, given that of its statements. -/
def bodyLayout (depth : Nat) (body : List Statement) (layout : Layout) : Layout :=
  if body.isEmpty then [(depth, .pass)] else layout

mutual

/-- The layout of a statement at a depth. -/
def Statement.layout (depth : Nat) : Statement → Layout
  | .flip e => [(depth, .flip e)]
  | .put c => [(depth, .put c)]
  | .apply o es => [(depth, .apply o es)]
  | .loop p es body =>
    (depth, .loop p es) :: bodyLayout (depth + 1) body (layoutOf (depth + 1) body)
  | .test c body => (depth, .test c) :: bodyLayout (depth + 1) body (layoutOf (depth + 1) body)
  | .complement => [(depth, .complement)]
  | .increment => [(depth, .increment)]
  | .read => [(depth, .read)]

/-- The layout of some statements at a depth. -/
def layoutOf (depth : Nat) : List Statement → Layout
  | [] => []
  | s :: rest => s.layout depth ++ layoutOf depth rest

end

/-! ## What the emitter writes -/

@[simp] theorem exprCode_toNode (e : Expr) : exprCode e.toNode = .ok e.code := by
  cases e <;> rfl

@[simp] theorem elementCodes_map_toNode (es : List Expr) :
    elementCodes (es.map Expr.toNode) = .ok (es.map Expr.code) := by
  induction es with
  | nil => rfl
  | cons e es ih =>
    rw [List.map_cons, elementCodes, exprCode_toNode, ih]
    rfl

theorem exprCode_setToNode (es : List Expr) : exprCode (setToNode es) = .ok (setCode es) := by
  rw [setToNode, exprCode, elementCodes_map_toNode]
  rfl

namespace Emitter

/-- An emitter that has written the lines of a layout. -/
def after (e : Emitter) (layout : Layout) : Emitter :=
  ⟨layout.listing.reverse ++ e.written, e.depth⟩

theorem after_append (e : Emitter) (layout more : Layout) :
    (e.after layout).after more = e.after (layout ++ more) := by
  simp [after, Layout.listing_append]

/-- A block writes its header and then its body, from one level deeper and back again. -/
theorem closeBlock_openBlock {e : Emitter} (form : LineForm) {body : List Statement}
    (hbody : ∀ e : Emitter, emitAll (toNodes body) e = (.ok (), e.after (layoutOf e.depth body))) :
    closeBlock (emitAll (toNodes body) (e.openBlock form.code (toNodes body).isEmpty)) =
      (.ok (), e.after ((e.depth, form) ::
        bodyLayout (e.depth + 1) body (layoutOf (e.depth + 1) body))) := by
  rw [hbody]
  cases body with
  | nil => rfl
  | cons s rest =>
    simp [closeBlock, openBlock, after, line, bodyLayout, toNodes, Layout.listing]

@[simp] theorem loopHeader_toNode (p : Predicate) (es : List Expr) (body : List Node) :
    loopHeader (.mk .loop (.text p.name) (setToNode es :: body)) =
      .ok (LineForm.loop p es).code := by
  show (do
    let guard ← exprCode (setToNode es)
    let predicate ← valueCode (.text p.name)
    Except.ok ("while " ++ machineCall "holds" (predicate ++ ", " ++ guard) ++ ":")) = _
  rw [exprCode_setToNode]
  rfl

/-- Statements are written one after the other. -/
theorem emitAll_cons_toNode (s : Statement) (rest : List Node) (e : Emitter) :
    emitAll (s.toNode :: rest) e =
      match emitAs s.toNode.kind s.toNode e with
      | (.ok _, e) => emitAll rest e
      | (.error fault, e) => (.error fault, e) := by
  cases s <;> rfl

mutual

/-- A statement is written as its layout. -/
theorem emitAs_toNode : ∀ (s : Statement) (e : Emitter),
    emitAs s.toNode.kind s.toNode e = (.ok (), e.after (s.layout e.depth))
  | .flip x, e => by
    rw [Statement.toNode, Node.kind, emitAs, operandCode, exprCode_toNode]
    rfl
  | .put c, e => rfl
  | .apply o es, e => by
    rw [Statement.toNode, Node.kind, emitAs, operandCode, exprCode_setToNode]
    rfl
  | .loop p es body, e => by
    -- the header is written at the depth of the emitter, the body one level deeper
    rw [Statement.toNode, Node.kind, emitAs]
    · exact closeBlock_openBlock (.loop p es) (emitAll_toNodes body)
    · exact loopHeader_toNode p es (toNodes body)
  | .test c body, e => by
    rw [Statement.toNode, Node.kind, emitAs]
    · exact closeBlock_openBlock (.test c) (emitAll_toNodes body)
    · rfl
    · intro head body' hkind
      cases hkind
  | .complement, e => rfl
  | .increment, e => rfl
  | .read, e => rfl

/-- Statements are written as their layout. -/
theorem emitAll_toNodes : ∀ (ss : List Statement) (e : Emitter),
    emitAll (toNodes ss) e = (.ok (), e.after (layoutOf e.depth ss))
  | [], e => rfl
  | s :: rest, e => by
    rw [toNodes, emitAll_cons_toNode, emitAs_toNode s e]
    show emitAll (toNodes rest) (e.after (s.layout e.depth)) = _
    rw [emitAll_toNodes rest, after_append, layoutOf]
    rfl

end

/-- A program is written as its prelude and its layout. -/
theorem node_toNode (program : Program) :
    (fresh.node program.toNode).1 = .ok () ∧
      (fresh.node program.toNode).2.listing = preludeLines ++ (layoutOf 0 program).listing := by
  -- the prelude is what an emitter has written before the first statement
  have hnode : fresh.node program.toNode =
      (.ok (), after ⟨preludeLines.reverse, 0⟩ (layoutOf 0 program)) :=
    emitAll_toNodes program ⟨preludeLines.reverse, 0⟩
  rw [hnode]
  refine ⟨rfl, ?_⟩
  rw [listing, after, List.reverse_append, List.reverse_reverse, List.reverse_reverse]

end Emitter

end SetLang
