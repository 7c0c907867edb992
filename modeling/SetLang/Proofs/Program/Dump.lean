import SetLang.Proofs.Json.RoundTrip
import SetLang.Proofs.Session.Entry

/-!
# Shown trees can be read back

A tree is shown as JSON, an object of kind, value and children for each of its nodes. The reader of
JSON takes what is shown, in either layout, and the nodes are built again from the objects by the
names of their members. So what is shown of a tree determines the tree.
-/

namespace SetLang

namespace Node

/-! ## Nodes of JSON -/

/-- The kind of a node in JSON. -/
def kindOfJson? : Json → Option NodeKind
  | .string name => NodeKind.ofName? name
  | _ => none

/-- The value of a node in JSON. -/
def valueOfJson? : Json → Option Value
  | .null => some .absent
  | .int n => some (.int n)
  | .string s => some (.text s)
  | _ => none

mutual

/-- The tree of an object with its kind, value and children, in whatever order. -/
def ofJson? : Json → Option Node
  | .object members => do
    let kind ← (members.lookup "kind").bind kindOfJson?
    let value ← (members.lookup "value").bind valueOfJson?
    return .mk kind value (← childrenOfMembers? members)
  | _ => none

/-- The trees under the name of the children. -/
def childrenOfMembers? : List (String × Json) → Option (List Node)
  | [] => none
  | (name, value) :: rest =>
    if name = "children" then ofItems? value else childrenOfMembers? rest

/-- The trees of an array. -/
def ofItems? : Json → Option (List Node)
  | .array items => ofJsonAll? items
  | _ => none

/-- The trees of some objects. -/
def ofJsonAll? : List Json → Option (List Node)
  | [] => some []
  | item :: rest => do
    let first ← ofJson? item
    return first :: (← ofJsonAll? rest)

end

theorem ofName?_name (kind : NodeKind) : NodeKind.ofName? kind.name = some kind := by
  cases kind <;> decide

theorem valueOfJson?_jsonOfValue (value : Value) :
    valueOfJson? (jsonOfValue value) = some value := by
  cases value <;> rfl

mutual

/-- The tree of the object of a tree is the tree. -/
theorem ofJson?_toJson : ∀ n : Node, ofJson? n.toJson = some n
  | mk kind value children => by
    have hkind : kindOfJson? (.string kind.name) = some kind := ofName?_name kind
    have hvalue := valueOfJson?_jsonOfValue value
    have hchildren := ofJsonAll?_toJsonAll children
    simp [toJson, ofJson?, childrenOfMembers?, ofItems?, List.lookup_cons, hkind, hvalue, hchildren]

theorem ofJsonAll?_toJsonAll : ∀ ns : List Node, ofJsonAll? (toJsonAll ns) = some ns
  | [] => rfl
  | n :: rest => by
    have hfirst := ofJson?_toJson n
    have hrest := ofJsonAll?_toJsonAll rest
    simp [toJsonAll, ofJsonAll?, hfirst, hrest]

end

/-! ## Exact objects -/

variable {kind : NodeKind} {value : Value} {children : List Node}

theorem exists_of_mem_toJsonAll {json : Json} (h : json ∈ toJsonAll children) :
    ∃ n ∈ children, json = n.toJson := by
  induction children with
  | nil => cases h
  | cons n rest ih =>
    rcases List.mem_cons.1 h with rfl | hrest
    · exact ⟨n, List.mem_cons_self, rfl⟩
    · obtain ⟨m, hm, hjson⟩ := ih hrest
      exact ⟨m, List.mem_cons_of_mem n hm, hjson⟩

theorem isExact_toJson (hvalue : (jsonOfValue value).IsExact)
    (hchildren : ∀ n ∈ children, n.toJson.IsExact) : (mk kind value children).toJson.IsExact := by
  have hitems : (Json.array (toJsonAll children)).IsExact := by
    refine .array ?_
    intro json hjson
    obtain ⟨n, hn, rfl⟩ := exists_of_mem_toJsonAll hjson
    exact hchildren n hn
  have hnames : ["kind", "value", "children"].Nodup := by decide
  refine .object hnames ?_
  simp only [List.forall_mem_cons, List.not_mem_nil, false_imp_iff, implies_true, and_true]
  exact ⟨.string kind.name, hvalue, hitems⟩

theorem IsExpr.isExact {n : Node} (h : n.IsExpr) : n.toJson.IsExact := by
  cases h with
  | integer hfit => exact isExact_toJson (.int hfit) (by simp)
  | percent => exact isExact_toJson .null (by simp)

theorem IsSet.isExact {n : Node} (h : n.IsSet) : n.toJson.IsExact := by
  obtain ⟨helements⟩ := h
  exact isExact_toJson .null fun n hn => (helements n hn).isExact

theorem IsStatement.isExact {n : Node} (h : n.IsStatement) : n.toJson.IsExact := by
  induction h with
  | flip he => exact isExact_toJson .null (List.forall_mem_singleton.2 he.isExact)
  | printChar c => exact isExact_toJson (.string _) (by simp)
  | setOperation o hset =>
    exact isExact_toJson (.string _) (List.forall_mem_singleton.2 hset.isExact)
  | loop p hguard _ ih =>
    exact isExact_toJson (.string _) (List.forall_mem_cons.2 ⟨hguard.isExact, ih⟩)
  | charTest c _ ih => exact isExact_toJson (.string _) ih
  | complement => exact isExact_toJson .null (by simp)
  | increment => exact isExact_toJson .null (by simp)
  | readChar => exact isExact_toJson .null (by simp)

/-- The text of a well-formed tree in JSON determines all of its objects. -/
theorem IsWellFormed.isExact {n : Node} (h : n.IsWellFormed) : n.toJson.IsExact := by
  obtain ⟨hbody⟩ := h
  exact isExact_toJson .null fun n hn => (hbody n hn).isExact

/-! ## Shown trees -/

/-- What is shown of a tree in a layout: the line or lines of its object. -/
def dump (layout : Json.Layout) (n : Node) : String :=
  n.toJson.write layout ++ "\n"

theorem IsWellFormed.readWide_dump {n : Node} (h : n.IsWellFormed) (layout : Json.Layout) :
    Json.readWide (n.dump layout).toList = .ok (n.toJson.map WideText.ofString) := by
  have hblank : ∀ c ∈ "\n".toList, Json.isSpace c = true := by
    intro c hc
    rw [List.mem_singleton.1 hc]
    rfl
  rw [dump, String.toList_append]
  exact Json.readWide_write h.isExact layout hblank

theorem IsWellFormed.read_dump {n : Node} (h : n.IsWellFormed) (layout : Json.Layout) :
    Json.read (n.dump layout).toList = .ok n.toJson :=
  Json.read_of_readWide (h.readWide_dump layout)

theorem toJson_injective {n m : Node} (h : n.toJson = m.toJson) : n = m := by
  have hn := ofJson?_toJson n
  rw [h, ofJson?_toJson m] at hn
  exact (Option.some.inj hn).symm

end Node

/-- The layout in which a request shows a tree. -/
def Request.layout (r : Request) : Json.Layout :=
  if r.pretty then .block else .line

/-- A request to show the tree of a source that is parsed shows it, and does nothing else. -/
theorem Host.run_script_of_dumpTree {r : Request} {h h' : Host} {text : List Char} {tree : Node}
    (hdump : r.dumpTree = true) (hsource : h.run r.sourceText = (.ok text, h'))
    (hparse : parseText r.aliases.kind? text = .ok tree) :
    h.run r.script = (.ok none, h'.say (tree.dump r.layout)) := by
  rw [Request.script, run_bind, hsource]
  dsimp only
  rw [run_bind, run_ofExcept, hparse]
  dsimp only
  rw [if_pos hdump]
  rfl

/-- Showing a tree loses nothing. Of a text that is parsed under a reachable table, a request shows
the tree in one of two layouts. In both of them what is shown is read as the one object of the tree,
whose texts hold no lone half, and the nodes that are built again from the object are those of the
tree, with their kinds, their values and their children in order. So two texts of which the same is
shown, in whatever layouts, have the same tree. -/
theorem dump_lossless {table : AliasTable} (htable : table.Reachable) {text : List Char}
    {tree : Node} (hparse : parseText table.kind? text = .ok tree) :
    (∀ (r : Request) (h h' : Host), r.aliases = table → r.dumpTree = true →
      h.run r.sourceText = (.ok text, h') →
      h.run r.script = (.ok none, h'.say (tree.dump r.layout))) ∧
    (∀ layout, Json.readWide (tree.dump layout).toList =
      .ok (tree.toJson.map WideText.ofString)) ∧
    (∀ layout, Json.read (tree.dump layout).toList = .ok tree.toJson) ∧
    Node.ofJson? tree.toJson = some tree ∧
    ∀ (other : AliasTable) (text' : List Char) (tree' : Node), other.Reachable →
      parseText other.kind? text' = .ok tree' →
      ∀ layout layout', tree.dump layout = tree'.dump layout' → tree = tree' := by
  have hwellFormed := isWellFormed_of_parseText htable.canonical_kind? hparse
  refine ⟨?_, hwellFormed.readWide_dump, hwellFormed.read_dump, Node.ofJson?_toJson tree, ?_⟩
  · intro r h h' haliases hdump hsource
    rw [← haliases] at hparse
    exact Host.run_script_of_dumpTree hdump hsource hparse
  · intro other text' tree' hother hparse' layout layout' heq
    have hwellFormed' := isWellFormed_of_parseText hother.canonical_kind? hparse'
    have hread := hwellFormed.read_dump layout
    rw [heq, hwellFormed'.read_dump layout'] at hread
    exact (Node.toJson_injective (Except.ok.inj hread)).symm

/-- A request to show a test of a line feed around a flip, on one line. -/
def Request.toShowTest : Request where
  source := "'\n'/flip 7\\"
  isText := true
  out := none
  execute := false
  pretty := false
  dumpTree := true
  aliases := .canonical

/-- The test is shown, and read back in the other layout too; the text without the alias shows the
same, so it has the same tree. -/
theorem dump_lossless_test :
    ∃ tree tree' : Node,
      parseText AliasTable.canonical.kind? "'\n'/flip 7\\".toList = .ok tree ∧
      (Host.mk ⟨[]⟩ (.ofInput "")).run Request.toShowTest.script =
        (.ok none, (Host.mk ⟨[]⟩ (.ofInput "")).say (tree.dump .line)) ∧
      Json.readWide (tree.dump .block).toList = .ok (tree.toJson.map WideText.ofString) ∧
      Json.read (tree.dump .block).toList = .ok tree.toJson ∧
      Node.ofJson? tree.toJson = some tree ∧
      parseText AliasTable.canonical.kind? "'\n'/*7\\".toList = .ok tree' ∧
      tree.dump .line = tree'.dump .line ∧ tree = tree' := by
  let tree : Node := .mk .program .absent [.mk .charTest (.text "\n")
    [.mk .flip .absent [.mk .integer (.int 7) []]]]
  have hparse : parseText AliasTable.canonical.kind? "'\n'/flip 7\\".toList = .ok tree := by rfl
  have hparse' : parseText AliasTable.canonical.kind? "'\n'/*7\\".toList = .ok tree := by rfl
  obtain ⟨hrun, hwide, hread, hback, hsame⟩ := dump_lossless .canonical hparse
  exact ⟨tree, tree, hparse, hrun Request.toShowTest _ _ rfl rfl rfl, hwide .block,
    hread .block, hback, hparse', rfl, hsame _ _ tree .canonical hparse' .line .line rfl⟩

end SetLang
