import SetLang.Proofs.Alias.Extension
import SetLang.Proofs.Session.Depth
import SetLang.Proofs.Session.Line
import SetLang.Proofs.Text.Trim

/-!
# Alias commands at the prompt

A line that is a command about aliases is carried out before another line is read, unless the line
counts as the beginning of a block, and then it is collected. Main statement: this is so for every
such command, and if no word stands for a mark that opens a block, then only a path with such a mark
in it can make a command wait.
-/

namespace SetLang

/-! ## Words and paths -/

theorem smallLetters_eq_iff {s word : String} :
    smallLetters s = word ↔ s.toList.map Char.toLower = word.toList := by
  rw [smallLetters, ← String.toList_inj, String.toList_ofList]

@[simp] theorem takeFirst_append (front text : String) :
    takeFirst front.toList.length (front ++ text) = front := by
  rw [takeFirst, String.toList_append, List.take_left, String.ofList_toList]

@[simp] theorem dropFirst_append (front text : String) :
    dropFirst front.toList.length (front ++ text) = text := by
  rw [dropFirst, String.toList_append, List.drop_left, String.ofList_toList]

/-- A path that is written without quotes: it is not empty, and neither blanks nor quotes stand at
its ends. -/
structure IsBarePath (path : String) : Prop where
  ne_empty : path ≠ ""
  blanks : Text.IsTrimmed Text.isBlank path.toList
  quotes : Text.IsTrimmed (· == '"') path.toList
  apostrophes : Text.IsTrimmed (· == '\'') path.toList

theorem commandKind_load {path : String} (h : IsBarePath path) :
    AliasTable.commandKind ("load " ++ path) = .load path := by
  have hdiff : ¬smallLetters ("load " ++ path) = "diff" := by
    rw [smallLetters_eq_iff, String.toList_append]
    intro heq
    exact absurd (List.cons.inj heq).1 (by decide)
  have hpath : Text.stripChar '\'' (Text.stripChar '"' (Text.strip path)) = path := by
    rw [Text.strip_eq_self h.blanks h.ne_empty, Text.stripChar_eq_self h.quotes h.ne_empty,
      Text.stripChar_eq_self h.apostrophes h.ne_empty]
  have htake : takeFirst 5 ("load " ++ path) = "load " := takeFirst_append "load " path
  have hdrop : dropFirst 5 ("load " ++ path) = path := dropFirst_append "load " path
  rw [AliasTable.commandKind, if_neg (by simp), if_neg hdiff, htake, if_pos (by decide), hdrop,
    hpath]

/-- A text of JSON is a configuration and nothing else. -/
theorem commandKind_json {text : String} {json : Json WideText} (h : Json.IsText text.toList json) :
    AliasTable.commandKind text = .configure := by
  obtain ⟨c, more, htext, -⟩ := h.begins
  rw [htext] at h
  have hall : ∀ c ∈ Json.openings ++ Json.scalarHeads, c.toLower ≠ 'd' ∧ c.toLower ≠ 'l' :=
    forall_mem_of_all (by decide)
  obtain ⟨hd, hl⟩ := hall c h.head_mem
  have hempty : ¬text.isEmpty = true := by
    rw [String.isEmpty_iff]
    rintro rfl
    cases htext
  have hdiff : ¬smallLetters text = "diff" := by
    rw [smallLetters_eq_iff, htext]
    intro heq
    exact hd (List.cons.inj heq).1
  have hload : ¬smallLetters (takeFirst 5 text) = "load " := by
    rw [smallLetters_eq_iff, takeFirst, String.toList_ofList, htext]
    intro heq
    exact hl (List.cons.inj heq).1
  rw [AliasTable.commandKind, if_neg hempty, if_neg hdiff, if_neg hload]

/-- A command about aliases, as it is entered. -/
inductive AliasCommand where
  | report
  | compare
  | load (path : String)
  | configure (text : String) (json : Json WideText)

namespace AliasCommand

/-- What follows the command word. -/
def tail : AliasCommand → String
  | report => ""
  | compare => " diff"
  | load path => " load " ++ path
  | configure text _ => " " ++ text

/-- The line of a command. -/
def line (c : AliasCommand) : String :=
  "sugar" ++ c.tail

/-- A command as it should be written: its path is bare, and its configuration is JSON. -/
inductive IsWritten : AliasCommand → Prop where
  | report : IsWritten report
  | compare : IsWritten compare
  | load {path : String} : IsBarePath path → IsWritten (load path)
  | configure {text : String} {json : Json WideText} : Json.readWide text.toList = .ok json →
      IsWritten (configure text json)

/-- What a command does to a table. -/
def script (table : AliasTable) : AliasCommand → Script AliasTable
  | report => do
    Script.printLine (table.report true)
    return table
  | compare => do
    table.printAdditions
    return table
  | load path => table.extendBy (table.loadFile path) (AliasTable.loadedText path)
  | configure _ json =>
    table.extendBy (Script.ofExcept (table.configure (.ofJson json))) AliasTable.updatedText

/-! ## Arguments -/

/-- The argument in what follows the command word: a text that is not empty, between blanks. -/
def IsArgument (tail argument : String) : Prop :=
  ∃ front behind, tail.toList = front ++ (argument.toList ++ behind) ∧
    (∀ c ∈ front, Text.isBlank c = true) ∧ (∀ c ∈ behind, Text.isBlank c = true) ∧
    Text.IsTrimmed Text.isBlank argument.toList ∧ argument ≠ ""

theorem entryKind_sugar {rest : String}
    (hstrip : Text.strip ("sugar" ++ rest) = "sugar" ++ rest) :
    Session.entryKind ("sugar" ++ rest) = .aliasCommand (Text.strip rest) := by
  have htext : ("sugar" ++ rest).toList = 's' :: 'u' :: ("gar".toList ++ rest.toList) := by simp
  have hverbose : ¬smallLetters ("sugar" ++ rest) = "verbose-mode" := by
    rw [smallLetters_eq_iff, htext]
    intro heq
    exact absurd (List.cons.inj heq).1 (by decide)
  have hstate : ¬smallLetters ("sugar" ++ rest) = "state" := by
    rw [smallLetters_eq_iff, htext]
    intro heq
    exact absurd (List.cons.inj (List.cons.inj heq).2).1 (by decide)
  have htake : takeFirst 5 ("sugar" ++ rest) = "sugar" := takeFirst_append "sugar" rest
  have hdrop : dropFirst 5 ("sugar" ++ rest) = rest := dropFirst_append "sugar" rest
  rw [Session.entryKind, if_neg (by simp), if_neg hverbose, if_neg hstate, hstrip, htake,
    if_pos (by decide), hdrop]

/-- A line that begins with the command word asks for what its argument says. -/
theorem IsArgument.entryKind_eq {tail argument : String} (h : IsArgument tail argument) :
    Session.entryKind (Text.strip ("sugar" ++ tail)) = .aliasCommand argument := by
  obtain ⟨front, behind, htail, hfront, hbehind, htrimmed, hne⟩ := h
  -- the blanks behind the argument go, those in front of it stay behind the word
  have htext : ("sugar" ++ (String.ofList front ++ argument)).toList =
      's' :: ("ugar".toList ++ front ++ argument.toList) := by simp
  have htextTrimmed : Text.IsTrimmed Text.isBlank
      ("sugar" ++ (String.ofList front ++ argument)).toList := by
    rw [htext]
    exact .cons_append (by decide) _ htrimmed (mt String.toList_eq_nil_iff.1 hne)
  have hstrip : Text.strip ("sugar" ++ tail) = "sugar" ++ (String.ofList front ++ argument) :=
    Text.strip_eq [] behind (by simp [htail]) (by simp) hbehind htextTrimmed (by simp)
  have hargument : Text.strip (String.ofList front ++ argument) = argument :=
    Text.strip_eq front [] (by simp) hfront (by simp) htrimmed hne
  rw [hstrip, entryKind_sugar (Text.strip_eq_self htextTrimmed (by simp)), hargument]

theorem isArgument_load {path : String} (h : IsBarePath path) :
    IsArgument (" load " ++ path) ("load " ++ path) := by
  refine ⟨[' '], [], by simp, forall_mem_of_all (by decide), by simp, ?_, by simp⟩
  rw [String.toList_append]
  exact .cons_append (by decide) "oad ".toList h.blanks (mt String.toList_eq_nil_iff.1 h.ne_empty)

/-- The argument of a configuration is its text without the blanks around it, and it is read as the
same JSON. -/
theorem exists_isArgument_json {text : String} {json : Json WideText}
    (h : Json.readWide text.toList = .ok json) :
    ∃ argument, IsArgument (" " ++ text) argument ∧ Json.IsText argument.toList json ∧
      Json.readWide argument.toList = .ok json := by
  obtain ⟨front, part, behind, htext, hfront, hbehind, hpart⟩ :=
    Json.exists_isClosedText_of_readWide h
  have hread := hpart.isText.readWide_eq Json.spaces_nil Json.spaces_nil
  rw [List.append_nil, List.nil_append] at hread
  have hne : part ≠ [] := List.length_pos_iff.1 hpart.isText.begins.length_pos
  refine ⟨String.ofList part, ⟨' ' :: front, behind, by simp [htext], ?_, ?_, ?_, by simp [hne]⟩,
    ?_, ?_⟩
  · exact List.forall_mem_cons.2 ⟨by decide, fun c hc => Json.isBlank_of_isSpace (hfront c hc)⟩
  · exact fun c hc => Json.isBlank_of_isSpace (hbehind c hc)
  · rw [String.toList_ofList]
    exact hpart.isTrimmed
  · rw [String.toList_ofList]
    exact hpart.isText
  · rw [String.toList_ofList]
    exact hread

/-- What a line asks for is what its command does. -/
theorem exists_argument {c : AliasCommand} (hc : c.IsWritten) :
    ∃ argument, Session.entryKind (Text.strip c.line) = .aliasCommand argument ∧
      ∀ table, AliasTable.carryOut table argument = c.script table := by
  cases hc with
  | report => exact ⟨"", rfl, fun _ => rfl⟩
  | compare => exact ⟨"diff", rfl, fun _ => rfl⟩
  | @load path hpath =>
    refine ⟨"load " ++ path, (isArgument_load hpath).entryKind_eq, ?_⟩
    intro table
    rw [AliasTable.carryOut_eq, commandKind_load hpath]
    rfl
  | @configure text json hread =>
    obtain ⟨argument, hargument, htext, hread⟩ := exists_isArgument_json hread
    refine ⟨argument, hargument.entryKind_eq, ?_⟩
    intro table
    rw [AliasTable.carryOut_eq, commandKind_json htext]
    dsimp only
    rw [hread]
    rfl

end AliasCommand

/-- The words of a table open no block if none is bound to a mark that opens one. -/
theorem AliasTable.opensNone_kind? {table : AliasTable}
    (h : ∀ binding ∈ table.active, binding.2 ≠ .leftBracket ∧ binding.2 ≠ .slash) :
    Resolver.OpensNone table.kind? := by
  intro word
  refine ⟨?_, ?_⟩
  · intro hword
    exact (h _ (Bindings.mem_of_lookup_eq_some hword)).1 rfl
  · intro hword
    exact (h _ (Bindings.mem_of_lookup_eq_some hword)).2 rfl

namespace Session

variable {s : Session} {c : AliasCommand}

/-- A command about aliases is no line that ends a session. -/
theorem not_leaves_line (hc : c.IsWritten) : ¬s.Leaves c.line := by
  obtain ⟨argument, hkind, -⟩ := AliasCommand.exists_argument hc
  rintro ⟨-, hexit | hquit⟩
  · rw [hexit] at hkind
    cases hkind
  · rw [hquit] at hkind
    cases hkind

/-- A command is carried out when its line is entered: the session takes the table that the command
leaves, and asks for the next line. -/
def CarriesOut (s : Session) (c : AliasCommand) : Prop :=
  s.enter c.line = do
    let aliases ← c.script s.aliases
    return .proceed { s with aliases }

/-- A command at the prompt is carried out if no block counts as open behind its line. -/
theorem carriesOut_of_not_continues (hprompt : s.pending = []) (hc : c.IsWritten)
    (hcontinues : ¬s.Continues c.line) : s.CarriesOut c := by
  obtain ⟨argument, hkind, hscript⟩ := AliasCommand.exists_argument hc
  unfold CarriesOut
  rw [enter_at_prompt hprompt (not_leaves_line hc) hcontinues, carryOut_eq, hkind]
  dsimp only
  rw [hscript]

/-- If no word stands for a mark that opens a block, only a path with such a mark makes a command
wait. -/
theorem not_continues_line (hprompt : s.pending = [])
    (hopens : Resolver.OpensNone s.aliases.kind?) (hc : c.IsWritten)
    (hpath : ∀ path, c = .load path → openersIn path.toList = 0) : ¬s.Continues c.line := by
  have hline : s.linesWith c.line = c.line := by
    rw [linesWith, hprompt]
    rfl
  rw [Continues, hline, Int.not_lt]
  cases hc with
  | report | compare => exact blockDepth_le_openersIn hopens _
  | @load path _ =>
    have hopeners : openersIn (AliasCommand.load path).line.toList = 0 := by
      rw [AliasCommand.line, AliasCommand.tail, String.toList_append, String.toList_append,
        openersIn_append, openersIn_append, hpath path rfl]
      rfl
    have hle := blockDepth_le_openersIn hopens (AliasCommand.load path).line.toList
    rw [hopeners] at hle
    exact hle
  | @configure text json hread =>
    refine blockDepth_nonpos_of_isOutline hopens ?_
    rw [AliasCommand.line, AliasCommand.tail, ← String.append_assoc, String.toList_append]
    exact (Json.isOutline_of_readWide hread).plain_append (forall_mem_of_all (by decide))

/-- At the prompt a command about aliases is carried out before another line is read, unless blocks
count as open behind its line; then the line is collected and the command waits. If no word stands
for a mark that opens a block, then a command waits for such a mark in its path only, and a report,
a comparison and a configuration never wait. -/
theorem alias_command_at_prompt (hprompt : s.pending = []) (hc : c.IsWritten) :
    (¬s.Continues c.line → s.CarriesOut c) ∧
      (s.Continues c.line → s.enter c.line = pure (.proceed { s with pending := [c.line] })) ∧
      (Resolver.OpensNone s.aliases.kind? →
        (∀ path, c = .load path → openersIn path.toList = 0) → s.CarriesOut c) := by
  refine ⟨carriesOut_of_not_continues hprompt hc, ?_, ?_⟩
  · intro hcontinues
    rw [enter_of_continues (not_leaves_line hc) hcontinues, hprompt]
    rfl
  · intro hopens hpath
    exact carriesOut_of_not_continues hprompt hc (not_continues_line hprompt hopens hc hpath)

/-- A file beside the session is loaded when it is named. -/
theorem alias_command_at_prompt_load :
    (fresh false .canonical).CarriesOut (.load "b.json") := by
  have hpath : IsBarePath "b.json" := ⟨by decide, by decide, by decide, by decide⟩
  have hopens : Resolver.OpensNone (AliasTable.kind? .canonical) :=
    AliasTable.opensNone_kind? (by decide)
  refine (alias_command_at_prompt rfl (.load hpath)).2.2 hopens ?_
  rintro path ⟨rfl⟩
  rfl

/-- A file in another directory is not loaded when it is named: the line waits for more lines. -/
theorem not_carriesOut_load_slash :
    let s := fresh false .canonical
    let c : AliasCommand := .load "a/b.json"
    c.IsWritten ∧ s.aliases.Reachable ∧ s.pending = [] ∧
      s.enter c.line = pure (.proceed { s with pending := [c.line] }) ∧ ¬s.CarriesOut c := by
  intro s c
  have hwritten : c.IsWritten := .load ⟨by decide, by decide, by decide, by decide⟩
  have hcontinues : s.Continues c.line := by decide
  have henter : s.enter c.line = pure (.proceed { s with pending := [c.line] }) :=
    enter_of_continues (not_leaves_line hwritten) hcontinues
  refine ⟨hwritten, .canonical, rfl, henter, ?_⟩
  intro hcarries
  cases henter.symm.trans hcarries

end Session

end SetLang
