import SetLang.Alias.Command
import SetLang.Proofs.Alias.Refusal
import SetLang.Proofs.Session.Entry

/-!
# Answers to alias commands

An alias command reports the table, or it extends the table, or it tells why it does not. Main
statement: whatever follows the command word, the command is answered in one of these ways, unless it
brings a configuration with a symbol whose refusal cannot be told. Such a symbol is a JSON array or a
JSON object, whose fault is not handled, or a text with a lone half, which cannot be shown. Either
ends the command.
-/

namespace SetLang

/-! ## Scripts and hosts -/

namespace Host

/-- What a script does after a fault is done where the fault occurs. -/
theorem run_orElse {α : Type} (h : Host) (script : Script α) (recover : Fault → Script α) :
    h.run (script.orElse recover) =
      match h.run script with
      | (.ok result, h) => (.ok result, h)
      | (.error fault, h) => h.run (recover fault) := by
  induction script generalizing h with
  | done result => rfl
  | fail fault => rfl
  | say text rest ih => exact ih (h.say text)
  | readFile path rest ih => exact ih (h.files.read path) h
  | writeFile path text rest ih =>
    rw [Script.orElse, run, run]
    cases h.files.write path text with
    | ok files => exact ih (.ok ()) { h with files }
    | error fault => exact ih (.error fault) h

/-- A script takes nothing of the input. -/
theorem input_run {α : Type} (h : Host) (script : Script α) :
    (h.run script).2.console.input = h.console.input := by
  induction script generalizing h with
  | done | fail => rfl
  | say text rest ih => exact ih (h.say text)
  | readFile path rest ih => exact ih (h.files.read path) h
  | writeFile path text rest ih =>
    rw [run]
    cases h.files.write path text with
    | ok files => exact ih (.ok ()) { h with files }
    | error fault => exact ih (.error fault) h

theorem say_say (h : Host) (first second : String) :
    (h.say first).say second = h.say (first ++ second) := by
  simp [say, Console.say, String.append_assoc]

end Host

/-- A text without a half is said as it is. -/
theorem Script.printWideLine_of_not_hasHalf {text : WideText} (h : ¬text.HasHalf) :
    printWideLine text = printLine text.shown := by
  obtain ⟨s, rfl⟩ := WideText.exists_eq_ofString h
  rw [printWideLine, WideText.encode_ofString, WideText.shown_ofString]

theorem Script.printWideLine_of_error {text : WideText} {error : EncodeError}
    (h : text.encode = .error error) : printWideLine text = fail (.unencodable error) := by
  rw [printWideLine, h]

namespace AliasTable

/-! ## What commands ask for -/

/-- What follows the command word asks for a report, for the bindings beyond the default words, for an
alias file, or for a configuration in JSON. -/
inductive CommandKind where
  | report
  | compare
  | load (path : String)
  | configure

/-- What the argument of an alias command asks for; quotes around a path do not count. -/
def commandKind (argument : String) : CommandKind :=
  if argument.isEmpty then .report
  else if smallLetters argument = "diff" then .compare
  else if smallLetters (takeFirst 5 argument) = "load " then
    .load (Text.stripChar '\'' (Text.stripChar '"' (Text.strip (dropFirst 5 argument))))
  else .configure

/-- The script that extends a table by what another script brings, and tells of it. -/
def extendBy (table : AliasTable) (extended : Script AliasTable) (told : String) :
    Script AliasTable :=
  Script.orElse
    (do
      let table' ← extended
      Script.printLine told
      return table')
    table.tellRefusal

/-- The text that tells that an alias file was accepted. -/
def loadedText (path : String) : String :=
  "[ok] >>> Sugar aliases loaded from " ++ path ++ "."

/-- The text that tells that a configuration in JSON was accepted. -/
def updatedText : String := "[ok] >>> Sugar aliases updated."

theorem carryOut_eq (table : AliasTable) (argument : String) :
    table.carryOut argument =
      match commandKind argument with
      | .report => do
        Script.printLine (table.report true)
        return table
      | .compare => do
        table.printAdditions
        return table
      | .load path => table.extendBy (table.loadFile path) (loadedText path)
      | .configure =>
        match Json.readWide argument.toList with
        | .error error => tellRefusal.notConfiguration table (error.message argument.toList)
        | .ok json =>
          table.extendBy (Script.ofExcept (table.configure (.ofJson json))) updatedText := by
  unfold carryOut commandKind
  split
  · rfl
  · split
    · rfl
    · split
      · rfl
      · rfl

/-- The configuration that an alias command brings, and the text that tells that it was accepted: it
is in the file that is named, or it is JSON. -/
inductive Brings (files : Files) (argument : String) : Except Fault Config → String → Prop where
  | file {path : String} : commandKind argument = .load path →
      Brings files argument (readFile (files.read path)) (loadedText path)
  | json {json : Json WideText} : commandKind argument = .configure →
      Json.readWide argument.toList = .ok json →
      Brings files argument (.ok (.ofJson json)) updatedText

theorem Brings.fault {files : Files} {argument told : String} {config : Except Fault Config}
    {fault : Fault} (h : Brings files argument config told) (hconfig : config = .error fault) :
    fault.IsRefusal := by
  cases h with
  | file => exact readFile_fault hconfig
  | json => cases hconfig

/-! ## Answers -/

/-- The text that lists the bindings beyond the default words. -/
def additionsText (table : AliasTable) : String :=
  if table.additions.isEmpty then "[sugar] >>> No aliases beyond the defaults.\n"
  else String.join ((sorted table.additions).map fun (word, kind) =>
    reportLine word kind.name ++ "\n")

/-- The text that tells that a text is no configuration. -/
def notConfigurationText (reason : String) : String :=
  "[error] >>> Sugar configuration must be a JSON object or list:" ++ "\n" ++ (reason ++ "\n")

/-- The line that the text of a refusal begins with. -/
def refusalHeading : String :=
  "[error] >>> Failed to configure sugar aliases:" ++ "\n"

/-- The text that tells why a configuration is refused. -/
def refusalText : Fault → String
  | .aliases cause =>
    refusalHeading ++ ((cause.message.shown ++ "\n") ++
      String.join (cause.conflicts.map fun conflict => " - " ++ conflict ++ "\n"))
  | fault => notConfigurationText fault.message

/-- How an alias command is answered: the table after it, and the text that is shown. -/
inductive Answers (files : Files) (table : AliasTable) (argument : String) :
    AliasTable → String → Prop where
  | reported : commandKind argument = .report →
      Answers files table argument table (table.report true ++ "\n")
  | compared : commandKind argument = .compare →
      Answers files table argument table table.additionsText
  | extended {config : Except Fault Config} {told : String} {table' : AliasTable} :
      Brings files argument config told → config >>= table.configure = .ok table' →
      Answers files table argument table' (told ++ "\n")
  | refused {config : Except Fault Config} {told : String} {fault : Fault} :
      Brings files argument config told → config >>= table.configure = .error fault →
      fault.IsRefusal → Answers files table argument table (refusalText fault)
  | malformed {error : Json.ReadError} : commandKind argument = .configure →
      Json.readWide argument.toList = .error error →
      Answers files table argument table (notConfigurationText (error.message argument.toList))

/-- The table after an answer is reachable if the one before was. -/
theorem Answers.reachable {files : Files} {table table' : AliasTable} {argument text : String}
    (h : Answers files table argument table' text) (htable : table.Reachable) :
    table'.Reachable := by
  cases h with
  | extended _ hextended =>
    obtain ⟨config, -, hconfigure⟩ := exists_of_bind_eq_ok hextended
    exact htable.configure hconfigure
  | reported | compared | refused | malformed => exact htable

/-- How an alias command fails: its fault, and the host that it leaves. It reaches a symbol that is a
list or a dictionary before it says anything, or a symbol with a lone half, of which it says the
heading of a refusal and no more. -/
inductive Fails (h : Host) (argument : String) : Fault → Host → Prop where
  | unhashable {told typeName : String} {entries : List (Config × Config)} {name : Config} :
      Brings h.files argument (.ok (.dict entries)) told → Reaches name entries →
      name.unhashable? = some typeName → Fails h argument (.unhashable typeName) h
  | half {told : String} {entries : List (Config × Config)} {symbol : WideText}
      {error : EncodeError} :
      Brings h.files argument (.ok (.dict entries)) told → Reaches (.text symbol) entries →
      (AliasCause.unknownSymbol symbol).message.encode = .error error →
      Fails h argument (.unencodable error) (h.say refusalHeading)

/-- The symbol that a command fails for is one whose refusal cannot be told. -/
theorem Fails.exists_isUntellable {h h' : Host} {argument : String} {fault : Fault}
    (hfails : Fails h argument fault h') :
    ∃ told entries name, Brings h.files argument (.ok (.dict entries)) told ∧
      Reaches name entries ∧ name.IsUntellable := by
  cases hfails with
  | unhashable hbrings hreaches hname => exact ⟨_, _, _, hbrings, hreaches, .unhashable hname⟩
  | half hbrings hreaches herror =>
    have hhalf := WideText.exists_encode_eq_error_iff.1 ⟨_, herror⟩
    exact ⟨_, _, _, hbrings, hreaches, .half (AliasCause.hasHalf_unknownSymbol.1 hhalf)⟩

/-- What comes of an alias command on a host: an answer or a failure. -/
inductive Outcome (h : Host) (table : AliasTable) (argument : String) :
    Except Fault AliasTable × Host → Prop where
  | answered {table' : AliasTable} {text : String} :
      Answers h.files table argument table' text →
      Outcome h table argument (.ok table', h.say text)
  | failed {fault : Fault} {h' : Host} :
      Fails h argument fault h' → Outcome h table argument (.error fault, h')

/-! ## Runs of commands -/

variable (h : Host) (table : AliasTable) (argument : String)

theorem run_printAdditions : h.run table.printAdditions = (.ok (), h.say table.additionsText) := by
  rw [printAdditions, additionsText]
  split <;> rfl

theorem run_notConfiguration (reason : String) :
    h.run (tellRefusal.notConfiguration table reason) =
      (.ok table, h.say (notConfigurationText reason)) := by
  have hrun : h.run (tellRefusal.notConfiguration table reason) = (.ok table,
      (h.say ("[error] >>> Sugar configuration must be a JSON object or list:" ++ "\n")).say
        (reason ++ "\n")) := rfl
  unfold notConfigurationText
  exact hrun.trans (congrArg _ (Host.say_say h _ _))

/-- A refusal is told, and the table stays as it is. -/
theorem run_tellRefusal {fault : Fault} (hfault : fault.IsRefusal) :
    h.run (table.tellRefusal fault) = (.ok table, h.say (refusalText fault)) := by
  cases hfault with
  | @aliases cause hcause =>
    let told := cause.message.shown ++ "\n"
    let conflicts := String.join (cause.conflicts.map fun conflict => " - " ++ conflict ++ "\n")
    have hrun : h.run (table.tellRefusal (.aliases cause)) =
        (.ok table, ((h.say refusalHeading).say told).say conflicts) := by
      unfold tellRefusal
      dsimp only
      rw [Script.printWideLine_of_not_hasHalf hcause]
      rfl
    have hsay := Host.say_say (h.say refusalHeading) told conflicts
    exact hrun.trans (congrArg _ (hsay.trans (Host.say_say h _ _)))
  | digitLimit => exact run_notConfiguration h table _

/-- A refusal that cannot be told fails behind its heading. -/
theorem run_tellRefusal_of_error {cause : AliasCause} {error : EncodeError}
    (herror : cause.message.encode = .error error) :
    h.run (table.tellRefusal (.aliases cause)) =
      (.error (.unencodable error), h.say refusalHeading) := by
  unfold tellRefusal
  dsimp only
  rw [Script.printWideLine_of_error herror]
  rfl

variable {h table argument}

/-- A fault of what extends a table is told, if it can be. -/
theorem run_extendBy_of_error {extended : Script AliasTable} {told : String} {fault : Fault}
    (hextended : h.run extended = (.error fault, h)) :
    h.run (table.extendBy extended told) = h.run (table.tellRefusal fault) := by
  rw [extendBy, Host.run_orElse, Host.run_bind, hextended]

/-- A configuration that a command brings extends the table, or it is refused and that is told, or
the command fails. -/
theorem outcome_extendBy {extended : Script AliasTable} {config : Except Fault Config}
    {told : String} (hbrings : Brings h.files argument config told)
    (hextended : h.run extended = (config >>= table.configure, h)) :
    Outcome h table argument (h.run (table.extendBy extended told)) := by
  cases houtcome : config >>= table.configure with
  | ok table' =>
    rw [extendBy, Host.run_orElse, Host.run_bind, hextended, houtcome]
    exact .answered (.extended hbrings houtcome)
  | error fault =>
    rw [houtcome] at hextended
    rw [run_extendBy_of_error hextended]
    have htold (hfault : fault.IsRefusal) :
        Outcome h table argument (h.run (table.tellRefusal fault)) := by
      rw [run_tellRefusal h table hfault]
      exact .answered (.refused hbrings houtcome hfault)
    rcases error_or_error_of_bind houtcome with hconfig | ⟨given, rfl, hgiven⟩
    · exact htold (hbrings.fault hconfig)
    rcases configure_fault hgiven with hfault | ⟨name, entries, rfl, hreaches, hname, huntellable⟩
    · exact htold hfault
    cases huntellable with
    | unhashable htype =>
      obtain rfl := Except.error.inj (hname.symm.trans (symbol_of_unhashable htype))
      exact .failed (.unhashable hbrings hreaches htype)
    | @half symbol hhalf =>
      obtain rfl := Except.error.inj (hname.symm.trans (symbol_of_hasHalf hhalf))
      obtain ⟨error, herror⟩ :=
        WideText.exists_encode_eq_error_iff.2 (AliasCause.hasHalf_unknownSymbol.2 hhalf)
      rw [run_tellRefusal_of_error h table herror]
      exact .failed (.half hbrings hreaches herror)

theorem run_loadFile (path : String) :
    h.run (table.loadFile path) = (readFile (h.files.read path) >>= table.configure, h) :=
  Host.run_ofExcept h (table.load (h.files.read path))

/-- Whatever follows the command word, the command is answered or fails. -/
theorem run_carryOut : Outcome h table argument (h.run (table.carryOut argument)) := by
  rw [carryOut_eq]
  cases hkind : commandKind argument with
  | report => exact .answered (.reported hkind)
  | compare =>
    dsimp only
    rw [Host.run_bind, run_printAdditions]
    exact .answered (.compared hkind)
  | load path => exact outcome_extendBy (.file hkind) (run_loadFile path)
  | configure =>
    dsimp only
    cases hread : Json.readWide argument.toList with
    | error error =>
      dsimp only
      rw [run_notConfiguration]
      exact .answered (.malformed hkind hread)
    | ok json => exact outcome_extendBy (.json hkind hread) (Host.run_ofExcept h _)

/-- A command that brings a configuration extends the table by it. -/
theorem Brings.exists_carryOut_eq {config : Except Fault Config} {told : String}
    (hbrings : Brings h.files argument config told) :
    ∃ extended, table.carryOut argument = table.extendBy extended told ∧
      h.run extended = (config >>= table.configure, h) := by
  rw [carryOut_eq]
  cases hbrings with
  | file hkind =>
    rw [hkind]
    exact ⟨_, rfl, run_loadFile _⟩
  | json hkind hread =>
    rw [hkind]
    dsimp only
    rw [hread]
    exact ⟨_, rfl, Host.run_ofExcept h _⟩

/-- A configuration is asked for the symbols that it reaches. -/
theorem Brings.run_carryOut_of_reaches {told : String} {entries : List (Config × Config)}
    {name : Config} {fault : Fault} (hbrings : Brings h.files argument (.ok (.dict entries)) told)
    (hreaches : Reaches name entries) (hname : symbol name = .error fault) :
    h.run (table.carryOut argument) = h.run (table.tellRefusal fault) := by
  obtain ⟨extended, hcarryOut, hextended⟩ : ∃ extended,
      table.carryOut argument = table.extendBy extended told ∧
        h.run extended = (.ok (.dict entries) >>= table.configure, h) := hbrings.exists_carryOut_eq
  have hconfigure : (Except.ok (.dict entries) >>= table.configure) = .error fault :=
    configure_of_reaches hreaches hname
  rw [hconfigure] at hextended
  rw [hcarryOut, run_extendBy_of_error hextended]

/-- A command that fails has no other outcome. -/
theorem run_carryOut_of_fails {fault : Fault} {h' : Host} (hfails : Fails h argument fault h') :
    h.run (table.carryOut argument) = (.error fault, h') := by
  cases hfails with
  | unhashable hbrings hreaches htype =>
    rw [hbrings.run_carryOut_of_reaches hreaches (symbol_of_unhashable htype)]
    rfl
  | half hbrings hreaches herror =>
    have hhalf := WideText.exists_encode_eq_error_iff.1 ⟨_, herror⟩
    have hsymbol := symbol_of_hasHalf (AliasCause.hasHalf_unknownSymbol.1 hhalf)
    rw [hbrings.run_carryOut_of_reaches hreaches hsymbol, run_tellRefusal_of_error h table herror]

/-! ## Symbols of commands -/

theorem Reaches.exists_mem {name : Config} {entries : List (Config × Config)}
    (hreaches : Reaches name entries) : ∃ entry ∈ entries, entry.2 = name := by
  induction hreaches with
  | here => exact ⟨_, List.mem_cons_self, rfl⟩
  | later _ _ _ ih =>
    obtain ⟨entry, hmem, hname⟩ := ih
    exact ⟨entry, List.mem_cons_of_mem _ hmem, hname⟩

end AliasTable

namespace Config

theorem unhashable?_ofJson (json : Json WideText) :
    (ofJson json).unhashable? =
      match json with
      | .array _ => some "list"
      | .object _ => some "dict"
      | _ => none := by
  cases json <;> rfl

theorem snd_of_mem_putEntry {key value : Config} {entries : List (Config × Config)}
    {entry : Config × Config} (h : entry ∈ putEntry key value entries) :
    entry.2 = value ∨ entry ∈ entries := by
  induction entries with
  | nil =>
    obtain rfl := List.mem_singleton.1 h
    exact .inl rfl
  | cons first rest ih =>
    rw [putEntry] at h
    split at h
    · rcases List.mem_cons.1 h with rfl | h
      · exact .inl rfl
      · exact .inr (List.mem_cons_of_mem _ h)
    · rcases List.mem_cons.1 h with rfl | h
      · exact .inr List.mem_cons_self
      · exact (ih h).imp_right (List.mem_cons_of_mem _)

/-- What holds of all symbols of some entries holds of those of the dictionary that they make. -/
theorem forall_mem_of_dictOf {p : Config → Prop} {entries final : List (Config × Config)}
    (h : ∀ entry ∈ entries, p entry.2) (hfinal : dictOf entries = .dict final) :
    ∀ entry ∈ final, p entry.2 := by
  obtain rfl := Config.dict.inj hfinal
  refine List.foldlRecOn entries _
    (motive := fun done : List (Config × Config) => ∀ entry ∈ done, p entry.2)
    (fun _ hmem => absurd hmem List.not_mem_nil) ?_
  rintro done hdone ⟨key, value⟩ hmem entry hentry
  rcases snd_of_mem_putEntry hentry with hvalue | hold
  · rw [hvalue]
    exact h _ hmem
  · exact hdone entry hold

theorem exists_ofJson_of_mem_ofMembers {members : List (WideText × Json WideText)}
    {entry : Config × Config} (h : entry ∈ ofMembers members) : ∃ json, entry.2 = .ofJson json := by
  induction members with
  | nil => exact absurd h List.not_mem_nil
  | cons member rest ih =>
    rcases List.mem_cons.1 h with rfl | h
    · exact ⟨member.2, rfl⟩
    · exact ih h

end Config

namespace AliasTable

theorem exists_fileConfig_of_readFile {file : Except Fault Bytes} {config : Config}
    (h : readFile file = .ok config) : ∃ members, config = fileConfig members := by
  unfold readFile at h
  split at h
  · cases h
  · split at h
    · cases h
    · next given hparse =>
      obtain rfl := Except.ok.inj h
      unfold parseFile at hparse
      split at hparse
      · cases hparse
      · next members _ => exact ⟨members, (Except.ok.inj hparse).symm⟩
      · cases hparse

variable {files : Files} {argument told typeName : String} {entries : List (Config × Config)}

/-- The symbols of a configuration that a command brings are JSON values. -/
theorem Brings.exists_ofJson (h : Brings files argument (.ok (.dict entries)) told) :
    ∀ entry ∈ entries, ∃ json, entry.2 = .ofJson json := by
  generalize hconfig : (.ok (.dict entries) : Except Fault Config) = config at h
  cases h with
  | file =>
    obtain ⟨members, hmembers⟩ := exists_fileConfig_of_readFile hconfig.symm
    refine Config.forall_mem_of_dictOf (p := fun config => ∃ json, config = .ofJson json)
      (fun entry hmem => ?_) hmembers.symm
    obtain ⟨member, -, rfl⟩ := List.mem_map.1 hmem
    exact ⟨member.2, rfl⟩
  | @json json =>
    have hjson : Config.dict entries = .ofJson json := Except.ok.inj hconfig
    cases json with
    | object members =>
      obtain rfl := Config.dict.inj hjson
      exact fun entry hmem => Config.exists_ofJson_of_mem_ofMembers hmem
    | _ => cases hjson

/-- A symbol of a configuration that a command brings is a list or a dictionary if it cannot be looked
for. -/
theorem Brings.list_or_dict_of_unhashable {name : Config}
    (h : Brings files argument (.ok (.dict entries)) told) (hreaches : Reaches name entries)
    (hname : name.unhashable? = some typeName) : typeName = "list" ∨ typeName = "dict" := by
  obtain ⟨entry, hmem, rfl⟩ := hreaches.exists_mem
  obtain ⟨json, hjson⟩ := h.exists_ofJson entry hmem
  rw [hjson, Config.unhashable?_ofJson] at hname
  cases json with
  | array => exact .inl (Option.some.inj hname).symm
  | object => exact .inr (Option.some.inj hname).symm
  | _ => cases hname

end AliasTable

end SetLang
