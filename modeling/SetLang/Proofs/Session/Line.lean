import SetLang.Proofs.Alias.Command
import SetLang.Proofs.Execution.StoredIntegers
import SetLang.Proofs.Session.Sequence

/-!
# What comes of a line

A line ends a session, or it is collected, or it completes an entry. Main statement: an entry is
answered, or its program is left to be run, or the session falls; and it falls for two causes only,
which are an alias command that fails and a machine whose variable is too long to be shown. An entry
that is refused is told so, and it changes nothing.
-/

namespace SetLang

/-! ## Programs of entries -/

namespace Host

variable {h shown : Host} {resolve : Resolver} {verbose : Bool} {text : String} {program : Program}

/-- The literals of a program that is left to be run fit decimal text. -/
theorem statementsFit_of_prepareEntry (hresolve : resolve.Canonical)
    (hprepare : h.run (prepareEntry resolve verbose text) = (.ok program, shown)) :
    StatementsFit program := by
  obtain ⟨hparse, -⟩ := listing_of_prepareEntry hresolve hprepare
  obtain ⟨parsed, hfit, htree⟩ := (isWellFormed_of_parseText hresolve hparse).exists_program
  rwa [Program.toNode_injective htree]

end Host

/-- The faults that a session can end with: a symbol is a list or a dictionary, a text that is to be
shown holds a lone half, or an integer is too long for decimal text. -/
inductive Fault.EndsSession : Fault → Prop where
  | list : EndsSession (.unhashable "list")
  | dict : EndsSession (.unhashable "dict")
  | unencodable (error : EncodeError) : EndsSession (.unencodable error)
  | digitLimit : EndsSession .digitLimit

/-! ## Entries -/

namespace Session

/-- What an entry asks for. -/
inductive EntryKind where
  | nothing
  | toggleVerbose
  | showState
  | aliasCommand (argument : String)
  | program

/-- What the text of an entry asks for. -/
def entryKind (text : String) : EntryKind :=
  if text.isEmpty || text.toList.head? == some '#' then .nothing
  else if smallLetters text = "verbose-mode" then .toggleVerbose
  else if smallLetters text = "state" then .showState
  else if smallLetters (takeFirst 5 (Text.strip text)) = "sugar" then
    .aliasCommand (Text.strip (dropFirst 5 (Text.strip text)))
  else .program

theorem carryOut_eq (s : Session) (text : String) :
    s.carryOut text =
      match entryKind text with
      | .nothing => pure (.proceed s)
      | .toggleVerbose => s.toggleVerbose
      | .showState => s.showState
      | .aliasCommand argument => do
        let aliases ← s.aliases.carryOut argument
        return .proceed { s with aliases }
      | .program => s.runProgram text := by
  unfold carryOut entryKind
  split
  · rfl
  · split
    · rfl
    · split
      · rfl
      · unfold AliasTable.command?
        by_cases hsugar : smallLetters (takeFirst 5 (Text.strip text)) = "sugar"
        · simp only [if_pos hsugar]
        · simp only [if_neg hsugar]

/-- How an entry is answered by a session that goes on: the session and the host after it. A program
is shown if that is wanted, and runs to its end; one that is refused changes nothing. -/
inductive Answers (h : Host) (s : Session) (text : String) : Session → Host → Prop where
  | skipped : entryKind text = .nothing → Answers h s text s h
  | toggled : entryKind text = .toggleVerbose →
      Answers h s text { s with verbose := !s.verbose }
        (h.say (("[mode] >>> Verbose mode " ++ if s.verbose then "OFF" else "ON") ++ "\n"))
  | shown {shown : String} : entryKind text = .showState → s.machine.shown = .ok shown →
      Answers h s text s (h.say ("[state] >>> " ++ shown ++ "\n"))
  | commanded {argument told : String} {aliases : AliasTable} :
      entryKind text = .aliasCommand argument →
      AliasTable.Answers h.files s.aliases argument aliases told →
      Answers h s text { s with aliases } (h.say told)
  | refused {fault : Fault} {shown : Host} : entryKind text = .program →
      h.run (prepareEntry s.aliases.kind? s.verbose text) = (.error fault, shown) →
      Answers h s text s (shown.say (faultText fault))
  | executed {program : Program} {shown : Host} {out input : List Char} {machine : Machine} :
      entryKind text = .program →
      h.run (prepareEntry s.aliases.kind? s.verbose text) = (.ok program, shown) →
      RunState.Halts ⟨program, s.machine, shown.console.input⟩ out machine input →
      Answers h s text { s with machine } (shown.wrote out input)

/-- The faults that an entry ends a session with, and the host that it leaves: an alias command fails,
or the machine is to be shown and its variable is too long for decimal text. -/
inductive Falls (h : Host) (s : Session) (text : String) : Fault → Host → Prop where
  | commanded {argument : String} {fault : Fault} {h' : Host} :
      entryKind text = .aliasCommand argument → AliasTable.Fails h argument fault h' →
      Falls h s text fault h'
  | tooLong : entryKind text = .showState → 10 ^ decimalDigitLimit ≤ s.machine.var →
      Falls h s text .digitLimit h

/-- What comes of an entry: it is answered at once, or its program is left to be run, or the session
falls. -/
inductive Outcome (h : Host) (s : Session) (text : String) : Except Fault Reaction × Host → Prop where
  | answered {s' : Session} {h' : Host} : Answers h s text s' h' →
      Outcome h s text (.ok (.proceed s'), h')
  | prepared {program : Program} {shown : Host} : entryKind text = .program →
      h.run (prepareEntry s.aliases.kind? s.verbose text) = (.ok program, shown) →
      Outcome h s text (.ok (.execute s program), shown)
  | fallen {fault : Fault} {h' : Host} : Falls h s text fault h' →
      Outcome h s text (.error fault, h')

/-- What is known of a session that began with the default words and a fresh machine. -/
structure IsSound (s : Session) : Prop where
  aliases : s.aliases.Reachable
  machine : s.machine.Attained

theorem isSound_fresh (verbose : Bool) : (fresh verbose .canonical).IsSound :=
  ⟨.canonical, Machine.attained_fresh⟩

variable {h : Host} {s : Session} {text : String}

/-- A machine is shown, unless its variable is too long. -/
theorem outcome_showState (hs : s.IsSound) (hkind : entryKind text = .showState) :
    Outcome h s text (h.run s.showState) := by
  rw [showState, Host.run_bind, Host.run_ofExcept]
  by_cases hvar : s.machine.var < 10 ^ decimalDigitLimit
  · obtain ⟨shown, hshown⟩ := hs.machine.exists_shown hvar
    rw [hshown]
    exact .answered (.shown hkind hshown)
  · have hlong := Int.not_lt.1 hvar
    rw [Machine.shown_of_tooLong hlong]
    exact .fallen (.tooLong hkind hlong)

theorem outcome_aliasCommand {argument : String} (hkind : entryKind text = .aliasCommand argument) :
    Outcome h s text (h.run do
      let aliases ← s.aliases.carryOut argument
      return .proceed { s with aliases }) := by
  have houtcome := @AliasTable.run_carryOut h s.aliases argument
  rw [Host.run_bind]
  generalize h.run (s.aliases.carryOut argument) = result at houtcome
  cases houtcome with
  | answered hanswers => exact .answered (.commanded hkind hanswers)
  | failed hfails => exact .fallen (.commanded hkind hfails)

theorem outcome_runProgram (hkind : entryKind text = .program) :
    Outcome h s text (h.run (s.runProgram text)) := by
  rw [runProgram, Host.run_orElse, Host.run_bind]
  cases hprepare : h.run (prepareEntry s.aliases.kind? s.verbose text) with
  | mk result shown =>
    cases result with
    | ok program => exact .prepared hkind hprepare
    | error fault => exact .answered (.refused hkind hprepare)

/-- An entry has one of the outcomes. -/
theorem run_carryOut (hs : s.IsSound) : Outcome h s text (h.run (s.carryOut text)) := by
  rw [carryOut_eq]
  cases hkind : entryKind text with
  | nothing => exact .answered (.skipped hkind)
  | toggleVerbose => exact .answered (.toggled hkind)
  | showState => exact outcome_showState hs hkind
  | aliasCommand argument => exact outcome_aliasCommand hkind
  | program => exact outcome_runProgram hkind

/-- A session falls with one of four faults. -/
theorem Falls.endsSession {fault : Fault} {h' : Host} (hfalls : Falls h s text fault h') :
    fault.EndsSession := by
  cases hfalls with
  | commanded _ hfails =>
    cases hfails with
    | unhashable hbrings hreaches hname =>
      obtain rfl | rfl := hbrings.list_or_dict_of_unhashable hreaches hname
      · exact .list
      · exact .dict
    | half => exact .unencodable _
  | tooLong => exact .digitLimit

/-- An entry that a session falls in has no other outcome. -/
theorem run_carryOut_of_falls {fault : Fault} {h' : Host} (hfalls : Falls h s text fault h') :
    h.run (s.carryOut text) = (.error fault, h') := by
  rw [carryOut_eq]
  cases hfalls with
  | commanded hkind hfails =>
    rw [hkind]
    dsimp only
    rw [Host.run_bind, AliasTable.run_carryOut_of_fails hfails]
  | tooLong hkind hvar =>
    rw [hkind]
    dsimp only
    rw [showState, Host.run_bind, Host.run_ofExcept, Machine.shown_of_tooLong hvar]

/-! ## What answers keep -/

theorem Answers.isSound {s' : Session} {h' : Host} (hanswers : Answers h s text s' h')
    (hs : s.IsSound) : s'.IsSound := by
  cases hanswers with
  | skipped | toggled | shown | refused => exact ⟨hs.aliases, hs.machine⟩
  | commanded _ hcommand => exact ⟨hcommand.reachable hs.aliases, hs.machine⟩
  | executed _ hprepare hhalts =>
    have hfit := Host.statementsFit_of_prepareEntry hs.aliases.canonical_kind? hprepare
    exact ⟨hs.aliases, (hhalts.attained ⟨hs.machine, hfit⟩).machine⟩

theorem Answers.input_length_le {s' : Session} {h' : Host} (hanswers : Answers h s text s' h') :
    h'.console.input.length ≤ h.console.input.length := by
  cases hanswers with
  | skipped | toggled | shown | commanded => exact Nat.le_refl _
  | refused _ hprepare =>
    rw [← h.input_run (prepareEntry s.aliases.kind? s.verbose text), hprepare]
    exact Nat.le_refl _
  | executed _ hprepare hhalts =>
    rw [← h.input_run (prepareEntry s.aliases.kind? s.verbose text), hprepare]
    exact hhalts.input_length_le

/-! ## Lines -/

/-- A line that ends a session: one of two words, while no entry is being collected. -/
def Leaves (s : Session) (line : String) : Prop :=
  s.pending = [] ∧ (Text.strip line = "exit" ∨ Text.strip line = "quit")

/-- The lines of an entry with one more line. -/
def linesWith (s : Session) (line : String) : String :=
  Text.joinWith "\n" (s.pending ++ [line])

/-- A line after which blocks are open, so that more lines belong to the entry. -/
def Continues (s : Session) (line : String) : Prop :=
  0 < blockDepth s.aliases.kind? (s.linesWith line).toList

/-- A line completes an entry, which is all lines so far without the blanks around them. -/
structure Completes (s : Session) (line text : String) : Prop where
  not_leaves : ¬ s.Leaves line
  not_continues : ¬ s.Continues line
  text_eq : text = Text.strip (s.linesWith line)

theorem Completes.text_eq_strip {line : String} (h : s.Completes line text) (hs : s.pending = []) :
    text = Text.strip line := by
  rw [h.text_eq, linesWith, hs]
  rfl

/-- A session takes a line and goes on: it collects the line, or it answers the entry. -/
inductive Takes (h : Host) (s : Session) (line : String) : Session → Host → Prop where
  | collected : ¬ s.Leaves line → s.Continues line →
      Takes h s line { s with pending := s.pending ++ [line] } h
  | answered {text : String} {s' : Session} {h' : Host} : s.Completes line text →
      Answers h { s with pending := [] } text s' h' → Takes h s line s' h'

/-- What comes of a line. -/
inductive LineOutcome (h : Host) (s : Session) (line : String) :
    Except Fault Reaction × Host → Prop where
  | leaves : s.Leaves line → LineOutcome h s line (.ok .leave, h.say ("Exiting Zermelo REPL." ++ "\n"))
  | collects : ¬ s.Leaves line → s.Continues line →
      LineOutcome h s line (.ok (.proceed { s with pending := s.pending ++ [line] }), h)
  | completes {text : String} {result : Except Fault Reaction × Host} : s.Completes line text →
      Outcome h { s with pending := [] } text result → LineOutcome h s line result

theorem leaves_iff {line : String} : s.Leaves line ↔
    (s.pending.isEmpty && (Text.strip line == "exit" || Text.strip line == "quit")) = true := by
  rw [Leaves, Bool.and_eq_true, List.isEmpty_iff, Bool.or_eq_true, beq_iff_eq, beq_iff_eq]

instance (line : String) : Decidable (s.Leaves line) :=
  decidable_of_iff _ leaves_iff.symm

instance (line : String) : Decidable (s.Continues line) :=
  inferInstanceAs (Decidable (_ < _))

theorem enter_of_completes {line : String} (hcompletes : s.Completes line text) :
    s.enter line = carryOut { s with pending := [] } text := by
  have hleaves := mt leaves_iff.2 hcompletes.not_leaves
  have hdepth : ¬ 0 < blockDepth s.aliases.kind? (s.linesWith line).toList :=
    hcompletes.not_continues
  unfold linesWith at hdepth
  unfold enter
  dsimp only
  rw [if_neg hleaves, if_neg hdepth, hcompletes.text_eq, linesWith]

/-- At the prompt a line is an entry by itself. -/
theorem enter_at_prompt {line : String} (hprompt : s.pending = []) (hleaves : ¬s.Leaves line)
    (hcontinues : ¬s.Continues line) : s.enter line = s.carryOut (Text.strip line) := by
  have hcompletes : s.Completes line (Text.strip line) :=
    ⟨hleaves, hcontinues, by rw [linesWith, hprompt]; rfl⟩
  rw [enter_of_completes hcompletes, ← hprompt]

theorem enter_of_continues {line : String} (hleaves : ¬ s.Leaves line)
    (hcontinues : s.Continues line) :
    s.enter line = return .proceed { s with pending := s.pending ++ [line] } := by
  have hdepth : 0 < blockDepth s.aliases.kind? (s.linesWith line).toList := hcontinues
  unfold linesWith at hdepth
  unfold enter
  dsimp only
  rw [if_neg (mt leaves_iff.2 hleaves), if_pos hdepth]

/-- A line has one of the outcomes. -/
theorem run_enter (hs : s.IsSound) (line : String) :
    LineOutcome h s line (h.run (s.enter line)) := by
  by_cases hleaves : s.Leaves line
  · unfold enter
    dsimp only
    rw [if_pos (leaves_iff.1 hleaves)]
    exact .leaves hleaves
  · by_cases hcontinues : s.Continues line
    · rw [enter_of_continues hleaves hcontinues]
      exact .collects hleaves hcontinues
    · have hcompletes : s.Completes line _ := ⟨hleaves, hcontinues, rfl⟩
      rw [enter_of_completes hcompletes]
      exact .completes hcompletes (run_carryOut ⟨hs.aliases, hs.machine⟩)

variable {line : String} {s' : Session} {h' : Host}

theorem Takes.isSound (htakes : Takes h s line s' h') (hs : s.IsSound) : s'.IsSound := by
  cases htakes with
  | collected => exact ⟨hs.aliases, hs.machine⟩
  | answered _ hanswers => exact hanswers.isSound ⟨hs.aliases, hs.machine⟩

theorem Takes.input_length_le (htakes : Takes h s line s' h') :
    h'.console.input.length ≤ h.console.input.length := by
  cases htakes with
  | collected => exact Nat.le_refl _
  | answered _ hanswers => exact hanswers.input_length_le

end Session

end SetLang
