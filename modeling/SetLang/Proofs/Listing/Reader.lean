import SetLang.Proofs.Alias.Reachable
import SetLang.Proofs.Listing.Blocks
import SetLang.Proofs.Listing.Code
import SetLang.Proofs.Token.Payload

/-!
# Emitted text determines the program

A reader of emitted text: it is divided at line breaks, the lines after the prelude are read one by
one, each as a depth and what it says, and the blocks are put together by depth alone. It divides at
everything that anybody may take for the end of a line, not only at the line feeds that the emitter
writes between lines. The text of every program is read back as the program, so that no two programs
have the same text.
-/

namespace SetLang

/-! ## Reading -/

/-- Reads a line: four blanks for every level, and a line of code. -/
def readLine? (line : List Char) : Option (Nat × LineForm) :=
  let blanks := (line.takeWhile (· = ' ')).length
  if blanks % 4 = 0 then
    (readCode? (line.dropWhile (· = ' '))).map fun form => (blanks / 4, form)
  else none

/-- The lines of a text, divided at every line break. -/
def linesOf (text : String) : List (List Char) :=
  text.toList.splitOnP (Text.lineBreaks.contains ·)

/-- Reads statements off their lines, whose layout is put together by depth. -/
def readStatements? (lines : List (List Char)) : Option Program :=
  (lines.mapM readLine?).bind Layout.program?

/-- Reads a program off its lines: the prelude, and then statements. -/
def readLines? (lines : List (List Char)) : Option Program :=
  if lines.take preludeLines.length = preludeLines.map (·.text.toList) then
    readStatements? (lines.drop preludeLines.length)
  else none

/-- Reads the tree of the program that was emitted as a text. -/
def readEmitted? (text : String) : Option Node :=
  (readLines? (linesOf text)).map Program.toNode

/-! ## Lines -/

namespace LineForm

/-- The code of a line begins where its blanks end. -/
theorem blanks_text (depth : Nat) (form : LineForm) :
    (Line.text ⟨depth, form.code⟩).toList.takeWhile (· = ' ') = List.replicate (4 * depth) ' ' ∧
      (Line.text ⟨depth, form.code⟩).toList.dropWhile (· = ' ') = form.code.toList := by
  have hblanks : ∀ c ∈ List.replicate (4 * depth) ' ', decide (c = ' ') = true := by
    intro c hc
    rw [List.eq_of_mem_replicate hc]
    rfl
  have hcode : ∀ c ∈ form.code.toList.head?, decide (c = ' ') = false := by
    intro c hc
    rw [decide_eq_false_iff_not]
    rintro rfl
    exact form.head?_code_ne_blank hc
  rw [Line.text, String.toList_append, String.toList_ofList]
  exact ⟨takeWhile_append_of_head? hblanks hcode, dropWhile_append_of_head? hblanks hcode⟩

/-- The line of a form at a depth is read as the form. -/
theorem readLine?_text (depth : Nat) (form : LineForm) :
    readLine? (Line.text ⟨depth, form.code⟩).toList = some (depth, form) := by
  obtain ⟨hblanks, hcode⟩ := form.blanks_text depth
  have hdepth : 4 * depth % 4 = 0 ∧ 4 * depth / 4 = depth := by omega
  rw [readLine?, hblanks, hcode, List.length_replicate, form.readCode?_code]
  simp only [hdepth, if_true, Option.map_some]

/-- A line has no line break in it, however deep it stands. -/
theorem unbroken_text (depth : Nat) (form : LineForm) :
    Text.Unbroken (Line.text ⟨depth, form.code⟩).toList := by
  rw [Line.text, String.toList_append, String.toList_ofList, Text.unbroken_append]
  exact ⟨Text.unbroken_replicate (by decide), form.unbroken_code⟩

end LineForm

theorem mapM_readLine?_listing (layout : Layout) :
    (layout.listing.map (·.text.toList)).mapM readLine? = some layout := by
  have hline : ∀ entry : Nat × LineForm,
      readLine? (Line.text ⟨entry.1, entry.2.code⟩).toList = some entry :=
    fun entry => entry.2.readLine?_text entry.1
  have hread := mapM_map_eq_some readLine? (fun entry => (Line.text ⟨entry.1, entry.2.code⟩).toList)
    hline layout
  rw [Layout.listing, List.map_map]
  exact hread

/-- The lines of statements are read back as the statements. -/
theorem readStatements?_listing (program : Program) :
    readStatements? ((layoutOf 0 program).listing.map (·.text.toList)) = some program := by
  rw [readStatements?, mapM_readLine?_listing, Option.bind_some, Layout.program?_layoutOf]

/-- Lines without line breaks are what their text is divided into. -/
theorem linesOf_text {first : Line} {more : Listing}
    (h : ∀ line ∈ first :: more, Text.Unbroken line.text.toList) :
    linesOf (Listing.text (first :: more)) = (first :: more).map (·.text.toList) := by
  have hbreaks : ∀ line ∈ first :: more, ∀ c ∈ line.text.toList,
      Text.lineBreaks.contains c = false := by
    intro line hline c hc
    rw [List.contains_eq_mem, decide_eq_false_iff_not]
    exact h line hline c hc
  obtain ⟨hfirst, hmore⟩ := List.forall_mem_cons.1 hbreaks
  have hseparator : "\n".toList = '\n' :: [] := rfl
  have hsplit := splitOnP_toList_joinWith (p := (Text.lineBreaks.contains ·)) hseparator rfl
    (by simp) first.text (more.map Line.text) hfirst (by simpa using hmore)
  rw [linesOf, Listing.text, List.map_cons, hsplit, List.map_map]
  rfl

/-! ## Programs -/

namespace Program

/-- The lines that a program is emitted as. -/
def listing (program : Program) : Listing :=
  preludeLines ++ (layoutOf 0 program).listing

theorem unbroken_of_mem_listing {program : Program} {line : Line} (h : line ∈ program.listing) :
    Text.Unbroken line.text.toList := by
  have hprelude : ∀ line ∈ preludeLines, Text.Unbroken line.text.toList := by decide +kernel
  rcases List.mem_append.1 h with h | h
  · exact hprelude line h
  · obtain ⟨⟨depth, form⟩, -, rfl⟩ := List.mem_map.1 h
    exact form.unbroken_text depth

/-- Every line of a program stays one line. -/
theorem linesOf_listing (program : Program) :
    linesOf program.listing.text = program.listing.map (·.text.toList) :=
  linesOf_text fun _ => unbroken_of_mem_listing

/-- The text of a program is read back. -/
theorem readEmitted?_listing (program : Program) :
    readEmitted? program.listing.text = some program.toNode := by
  have hlength : preludeLines.length = (preludeLines.map (·.text.toList)).length :=
    (List.length_map _).symm
  rw [readEmitted?, program.linesOf_listing, readLines?, listing, List.map_append, hlength,
    List.take_left, List.drop_left, if_pos rfl, readStatements?_listing, Option.map_some]

end Program

/-! ## Accepted texts -/

/-- What is emitted for an accepted text determines its program. It is emitted without a fault, it is
read back as the tree of the program, and an accepted text for which the same is emitted has the same
tree. The lines that were written are those that the text is divided into. The literal of every
character is read as that character and ends where its code ends, whatever follows. -/
theorem emitted_text_determines_program {table : AliasTable} (htable : table.Reachable)
    {text : List Char} {tree : Node} (hparse : parseText table.kind? text = .ok tree) :
    ∃ e, Emitter.forTarget "py" = .ok e ∧ (e.node tree).1 = .ok () ∧
      readEmitted? (e.node tree).2.output = some tree ∧
      (∀ other : AliasTable, other.Reachable → ∀ otherText otherTree,
        parseText other.kind? otherText = .ok otherTree →
          (e.node otherTree).2.output = (e.node tree).2.output → otherTree = tree) ∧
      linesOf (e.node tree).2.output = (e.node tree).2.listing.map (·.text.toList) ∧
      (∀ c, ∃ code, valueCode (.text (String.ofList [c])) = .ok code ∧
        ∀ rest, readCharCode? (code.toList ++ rest) = some (c, rest)) := by
  obtain ⟨program, rfl⟩ := exists_program_of_parseText htable.canonical_kind? hparse
  have htarget : Emitter.forTarget "py" = .ok .fresh := by rfl
  have hread (program : Program) :
      readEmitted? (Emitter.fresh.node program.toNode).2.output = some program.toNode := by
    rw [Emitter.output, (Emitter.node_toNode program).2]
    exact program.readEmitted?_listing
  refine ⟨.fresh, htarget, (Emitter.node_toNode program).1, hread program, ?_, ?_, ?_⟩
  · intro other hother otherText otherTree hotherParse houtput
    obtain ⟨otherProgram, rfl⟩ := exists_program_of_parseText hother.canonical_kind? hotherParse
    have heq := hread otherProgram
    rw [houtput, hread program] at heq
    exact (Option.some.inj heq).symm
  · rw [Emitter.output, (Emitter.node_toNode program).2]
    exact program.linesOf_listing
  · intro c
    exact ⟨charCode c, rfl, readCharCode?_charCode c⟩

/-- An empty block with a statement behind it and a block with that statement in it are told apart,
behind a character that ends a line. -/
theorem emitted_text_determines_program_empty_block :
    let behind : Program := [.put '\u2028', .test '\'' [], .complement]
    let inside : Program := [.put '\u2028', .test '\'' [.complement]]
    AliasTable.Reachable .empty ∧
      parseText AliasTable.empty.kind? "\"\u2028\" '\\'' / \\ c".toList = .ok behind.toNode ∧
      parseText AliasTable.empty.kind? "\"\u2028\" '\\'' / c \\".toList = .ok inside.toNode ∧
      ∃ e, Emitter.forTarget "py" = .ok e ∧
        readEmitted? (e.node behind.toNode).2.output = some behind.toNode ∧
        (e.node inside.toNode).2.output ≠ (e.node behind.toNode).2.output := by
  intro behind inside
  have hbehind : parseText AliasTable.empty.kind? "\"\u2028\" '\\'' / \\ c".toList =
      .ok behind.toNode := by rfl
  have hinside : parseText AliasTable.empty.kind? "\"\u2028\" '\\'' / c \\".toList =
      .ok inside.toNode := by rfl
  obtain ⟨e, htarget, -, hread, hinjective, -⟩ := emitted_text_determines_program .empty hbehind
  refine ⟨.empty, hbehind, hinside, e, htarget, hread, ?_⟩
  intro houtput
  have htree := hinjective .empty .empty _ _ hinside houtput
  have hlength : inside.length = behind.length :=
    congrArg List.length (Program.toNode_injective htree)
  exact absurd hlength (by decide)

end SetLang
