import SetLang.Host.Model
import SetLang.Proofs.Execution.TreeRun
import SetLang.Proofs.Listing.Nesting
import SetLang.Proofs.Listing.Reader
import SetLang.Proofs.Program.Derivation

/-!
# Entries that end well

An entry is refused before any of it runs, or it runs without faults. Main statement: an entry that
is parsed is refused only because its blocks or its loops are nested too deep, and any other one
makes its calls by the names in its tree, as many as it may, and none of them goes wrong. What is
emitted of an entry, shown and checked, is read back line by line as the program that runs.
-/

namespace SetLang

/-! ## Refused texts -/

/-- A text is refused for a lexical fault or for a token that the grammar rejects. -/
theorem lexical_or_rejected_of_parseText {resolve : Resolver} (hresolve : resolve.Canonical)
    {text : List Char} {fault : Fault} (h : parseText resolve text = .error fault) :
    (∃ cause place, fault = .lexical cause place) ∨ ∃ demand t, fault = .rejected demand t := by
  cases htokens : tokenize resolve text with
  | ok ts =>
    have hfit : Token.AllFit ts := (tokenize_eq_ok_iff.1 htokens).allFit
    rw [parseText, Feed.ofText_eq_ofTokens htokens] at h
    obtain ⟨q, houtcome⟩ := Parser.exists_outcome_parseFeed ts
    rw [h] at houtcome
    generalize hresult : Except.error fault = result at houtcome
    cases houtcome with
    | accepted ds q hwords hcalls => cases hresult
    | rejected read t rest demand q hserved =>
      have hrejection : Fault.rejection demand t = .rejected demand t :=
        Fault.rejection_eq (hfit.served t (by simp [hserved])) demand
      exact .inr ⟨demand, t, (Except.error.inj hresult).trans hrejection⟩
  | error cause =>
    obtain ⟨read, hread⟩ := tokenize_eq_error_iff.1 htokens
    by_cases hviable : IsViable (read.map Token.kind)
    · obtain rfl := Except.error.inj (h.symm.trans (hread.parseText_of_isViable hresolve hviable))
      obtain ⟨after, -, hfault⟩ := hread
      exact .inl (Cursor.exists_lexical_of_token hfault)
    · obtain ⟨n, t, demand, -, -, hparse, -⟩ := hread.parseText_of_not_isViable hresolve hviable
      exact .inr ⟨demand, t, Except.error.inj (h.symm.trans hparse)⟩

/-! ## Listings of entries -/

/-- The statements of a program are emitted as they are laid out. -/
theorem Listing.ofStatements_toNode (program : Program) :
    ofStatements program.toNode = .ok (layoutOf 0 program).listing := by
  have hemit := Emitter.emitAll_toNodes program .fresh
  rw [ofStatements, Program.toNode, Node.children, hemit]
  show Except.ok (Emitter.after .fresh (layoutOf 0 program)).listing = _
  rw [Emitter.listing, Emitter.after, Emitter.fresh, List.append_nil, List.reverse_reverse]

/-! ## Scripts of entries -/

namespace Host

theorem run_bind {α β : Type} (h : Host) (script : Script α) (next : α → Script β) :
    h.run (script >>= next) =
      match h.run script with
      | (.ok result, h) => h.run (next result)
      | (.error fault, h) => (.error fault, h) := by
  show h.run (script.andThen next) = _
  induction script generalizing h with
  | done result => rfl
  | fail fault => rfl
  | say text rest ih => exact ih (h.say text)
  | readFile path rest ih => exact ih (h.files.read path) h
  | writeFile path text rest ih =>
    rw [Script.andThen, run, run]
    cases h.files.write path text with
    | ok files => exact ih (.ok ()) { h with files }
    | error fault => exact ih (.error fault) h

theorem run_ofExcept {α : Type} (h : Host) (result : Except Fault α) :
    h.run (Script.ofExcept result) = (result, h) := by
  cases result <;> rfl

/-- A host that has shown the code of an entry if that is wanted. -/
def showCode (h : Host) (verbose : Bool) (listing : Listing) : Host :=
  if verbose then h.say ("[py] >>>\n" ++ listing.text ++ "\n") else h

variable {h : Host} {resolve : Resolver} {verbose : Bool} {text : String}

/-- Nothing of an entry that is not parsed is shown. -/
theorem run_prepareEntry_of_error {fault : Fault}
    (hparse : parseText resolve text.toList = .error fault) :
    h.run (prepareEntry resolve verbose text) = (.error fault, h) := by
  rw [prepareEntry, run_bind, run_ofExcept, hparse]

/-- A program is shown, checked and left to be run. -/
theorem run_prepareEntry_of_ok {program : Program}
    (hparse : parseText resolve text.toList = .ok program.toNode) :
    h.run (prepareEntry resolve verbose text) =
      ((layoutOf 0 program).listing.check.map fun _ => program,
        h.showCode verbose (layoutOf 0 program).listing) := by
  have hrest (h : Host) :
      h.run (do
        Script.ofExcept (layoutOf 0 program).listing.check
        Script.ofExcept (Program.ofTree program.toNode)) =
      ((layoutOf 0 program).listing.check.map fun _ => program, h) := by
    rw [run_bind, run_ofExcept, program.ofTree_toNode]
    cases (layoutOf 0 program).listing.check <;> rfl
  rw [prepareEntry, run_bind, run_ofExcept, hparse]
  show h.run _ = _
  rw [run_bind, run_ofExcept, Listing.ofStatements_toNode]
  -- the code is shown before the listing is checked
  cases verbose with
  | true => exact hrest (h.say ("[py] >>>\n" ++ (layoutOf 0 program).listing.text ++ "\n"))
  | false => exact hrest h

/-- A program that is left to be run is that of the tree of its text, and the lines that were shown
and checked are read back as this program. -/
theorem listing_of_prepareEntry {program : Program} {shown : Host} (hresolve : resolve.Canonical)
    (hprepare : h.run (prepareEntry resolve verbose text) = (.ok program, shown)) :
    parseText resolve text.toList = .ok program.toNode ∧
      ∃ listing, Listing.ofStatements program.toNode = .ok listing ∧ listing.check = .ok () ∧
        shown = h.showCode verbose listing ∧
        readStatements? (listing.map (·.text.toList)) = some program := by
  cases hparse : parseText resolve text.toList with
  | error fault =>
    rw [run_prepareEntry_of_error hparse] at hprepare
    cases hprepare
  | ok tree =>
    obtain ⟨parsed, rfl⟩ := exists_program_of_parseText hresolve hparse
    rw [run_prepareEntry_of_ok hparse] at hprepare
    cases hcheck : (layoutOf 0 parsed).listing.check with
    | error fault =>
      rw [hcheck] at hprepare
      cases hprepare
    | ok _ =>
      rw [hcheck] at hprepare
      obtain ⟨hresult, rfl⟩ := Prod.mk.inj hprepare
      obtain rfl := Except.ok.inj hresult
      exact ⟨rfl, _, Listing.ofStatements_toNode parsed, hcheck, rfl, readStatements?_listing parsed⟩

end Host

/-! ## Runs of entries -/

/-- How a run by name ends that does not go wrong. -/
def TreeRun.ending (r : TreeRun) : Ending :=
  if r.todo.isEmpty then .done else .limit

namespace Host

variable {h : Host} {resolve : Resolver} {verbose : Bool} {text : String}

/-- An entry that is refused leaves the machine as it was. -/
theorem runEntry_of_error {fault : Fault} {shown : Host} (calls : Nat) (machine : Machine)
    (hprepare : h.run (prepareEntry resolve verbose text) = (.error fault, shown)) :
    h.runEntry calls resolve verbose text machine = (.fault fault, machine, shown) := by
  rw [runEntry, hprepare]

/-- A host after a run by name: the input that is left, and what was written behind all else. -/
def afterRun (h : Host) (r : TreeRun) : Host :=
  say { h with console := { h.console with input := r.input } } (String.ofList r.output)

/-- Executing a program comes to where the run of its tree by name comes to, which does not go
wrong. -/
theorem exists_execute_eq (h : Host) (calls : Nat) (machine : Machine) (program : Program) :
    ∃ left r, TreeRun.run calls ⟨toNodes program, machine, h.console.input, []⟩ = .ok r ∧
      h.execute calls machine program = (left, r.todo.isEmpty, r.machine, h.afterRun r) := by
  let start : RunState := ⟨program, machine, h.console.input⟩
  refine ⟨calls - (start.trace calls).length, _, start.run_byName calls [], ?_⟩
  have hhalted : (start.after (start.trace calls)).halted =
      (toNodes (start.after (start.trace calls)).todo).isEmpty := by
    rw [RunState.halted]
    cases (start.after (start.trace calls)).todo <;> rfl
  rw [execute, RunState.runFor_eq_trace, String.empty_append]
  exact congrArg (calls - (start.trace calls).length, ·, _) hhalted

/-- An entry that is not refused is run by name. -/
theorem exists_runEntry_eq {program : Program} {shown : Host} (calls : Nat) (machine : Machine)
    (hprepare : h.run (prepareEntry resolve verbose text) = (.ok program, shown)) :
    ∃ r, TreeRun.run calls ⟨toNodes program, machine, shown.console.input, []⟩ = .ok r ∧
      h.runEntry calls resolve verbose text machine = (r.ending, r.machine, shown.afterRun r) := by
  obtain ⟨left, r, hrun, hexecute⟩ := shown.exists_execute_eq calls machine program
  refine ⟨r, hrun, ?_⟩
  rw [runEntry, hprepare]
  simp only [hexecute]
  rfl

theorem input_showCode (h : Host) (verbose : Bool) (listing : Listing) :
    (h.showCode verbose listing).console.input = h.console.input := by
  cases verbose <;> rfl

end Host

/-- An entry is refused before anything of it runs, or it runs and nothing goes wrong. It is refused
if it is not parsed, for a lexical fault or a rejected token. A tree is always emitted, as lines that
are read back as its program, and then it is refused if its blocks nest 100 deep, at the first line
that is indented so deep, and otherwise if its loops nest more than 20 deep, at the first loop inside
20 others. Any other entry makes its calls by the names in its tree, as many as it may, without a
fault. -/
theorem runEntry_refuses_or_runs (table : Option AliasTable) (htable : ∀ t ∈ table, t.Reachable)
    (verbose : Bool) (text : String) (h : Host) (machine : Machine) :
    let resolve := Resolver.ofTable? table
    let outcome (calls : Nat) := h.runEntry calls resolve verbose text machine
    (∀ fault, parseText resolve text.toList = .error fault →
      ((∃ cause place, fault = .lexical cause place) ∨ ∃ demand t, fault = .rejected demand t) ∧
      ∀ calls, outcome calls = (.fault fault, machine, h)) ∧
    ∀ tree, parseText resolve text.toList = .ok tree →
      ∃ (program : Program) (listing : Listing), tree = program.toNode ∧
        Listing.ofStatements tree = .ok listing ∧
        readStatements? (listing.map (·.text.toList)) = some program ∧
        listing.map Line.depth = program.sites.map Site.blocks ∧
        listing.map Line.isLoop = program.sites.map Site.isLoop ∧
        (100 ≤ tree.nesting Node.blockKinds →
          ∃ k, IsLeast {k | ∃ line, listing[k]? = some line ∧ 100 ≤ line.depth} k ∧
            ∀ calls, outcome calls =
              (.fault (.indentedTooDeep (k + 1)), machine, h.showCode verbose listing)) ∧
        (tree.nesting Node.blockKinds < 100 → 20 < tree.nesting Node.loopKinds →
          ∃ k, IsLeast {k | ∃ site, program.sites[k]? = some site ∧ site.isLoop = true ∧
              20 ≤ site.loops} k ∧
            ∀ calls, outcome calls =
              (.fault (.nestedTooDeep (k + 1)), machine, h.showCode verbose listing)) ∧
        (tree.nesting Node.blockKinds < 100 → tree.nesting Node.loopKinds ≤ 20 →
          ∀ calls, ∃ r, TreeRun.run calls ⟨tree.children, machine, h.console.input, []⟩ = .ok r ∧
            outcome calls = (r.ending, r.machine, (h.showCode verbose listing).afterRun r)) := by
  intro resolve outcome
  have hresolve : resolve.Canonical := Resolver.canonical_ofTable? htable
  refine ⟨fun fault hparse => ⟨lexical_or_rejected_of_parseText hresolve hparse, fun calls => ?_⟩,
    fun tree hparse => ?_⟩
  · exact Host.runEntry_of_error calls machine (Host.run_prepareEntry_of_error hparse)
  · obtain ⟨program, rfl⟩ := exists_program_of_parseText hresolve hparse
    have hprepare : h.run (prepareEntry resolve verbose text) = _ :=
      Host.run_prepareEntry_of_ok hparse
    have hdepths := Listing.map_depth_eq [] (layoutOf 0 program).listing
    have hloops := Listing.map_isLoop_eq [] (layoutOf 0 program).listing
    rw [program.sites_listing] at hdepths hloops
    refine ⟨program, (layoutOf 0 program).listing, rfl, Listing.ofStatements_toNode program,
      readStatements?_listing program, hdepths, hloops, fun hdeep => ?_,
      fun hshallow hnested => ?_, fun hshallow hflat calls => ?_⟩
    · obtain ⟨k, hleast, hcheck⟩ := Program.check_of_blocks hdeep
      rw [hcheck] at hprepare
      exact ⟨k, hleast, fun calls => Host.runEntry_of_error calls machine hprepare⟩
    · obtain ⟨k, hleast, hcheck⟩ := Program.check_of_loops hshallow hnested
      rw [hcheck] at hprepare
      exact ⟨k, hleast, fun calls => Host.runEntry_of_error calls machine hprepare⟩
    · rw [Program.check_of_le hshallow hflat] at hprepare
      obtain ⟨r, hrun, hend⟩ := Host.exists_runEntry_eq calls machine hprepare
      rw [Host.input_showCode] at hrun
      exact ⟨r, hrun, hend⟩

theorem statementsFit_nestedLoops (count : Nat) : StatementsFit (nestedLoops count) := by
  induction count with
  | zero => exact ⟨trivial, trivial⟩
  | succ count ih => exact ⟨⟨fun _ h => absurd h List.not_mem_nil, ih⟩, trivial⟩

/-- A rejected entry, and loops in one another: a hundred of them are refused for the indentation,
twenty-one of them for the loops, and twenty of them run for as many calls as they may. -/
theorem runEntry_refuses_or_runs_nested :
    let resolve := Resolver.ofTable? (some .canonical)
    let h : Host := ⟨⟨[]⟩, .ofInput ""⟩
    let outcome (text : String) (calls : Nat) := h.runEntry calls resolve false text .fresh
    let nested (count : Nat) := String.ofList (Program.source (nestedLoops count))
    AliasTable.Reachable .canonical ∧
      (∀ calls, outcome "flip ]" calls =
        (.fault (.rejected .expression ⟨.rightBracket, .text "]", ⟨1, 6⟩⟩), .fresh, h)) ∧
      (∃ k, ∀ calls, outcome (nested 100) calls = (.fault (.indentedTooDeep (k + 1)), .fresh, h)) ∧
      (∃ k, ∀ calls, outcome (nested 21) calls = (.fault (.nestedTooDeep (k + 1)), .fresh, h)) ∧
      ∀ calls, ∃ r, TreeRun.run calls ⟨toNodes (nestedLoops 20), .fresh, [], []⟩ = .ok r ∧
        outcome (nested 20) calls = (r.ending, r.machine, h.afterRun r) := by
  have hrejected : parseText (.ofTable? (some .canonical)) "flip ]".toList =
      .error (.rejected .expression ⟨.rightBracket, .text "]", ⟨1, 6⟩⟩) := by rfl
  intro resolve h outcome nested
  have hnested (count : Nat) : parseText resolve (nested count).toList =
      .ok (Program.toNode (nestedLoops count)) := by
    rw [String.toList_ofList]
    exact Program.parseText_source resolve (statementsFit_nestedLoops count)
  have hblocks (count : Nat) : (nestedLoops count).toNode.nesting Node.blockKinds = count :=
    nesting_nestedLoops (by decide) (fun _ => id) count
  have hloops (count : Nat) : (nestedLoops count).toNode.nesting Node.loopKinds = count :=
    nesting_nestedLoops (by decide) Node.loopKinds_subset count
  have htheorem (text : String) := runEntry_refuses_or_runs (some .canonical)
    (fun _ => AliasTable.reachable_of_mem_some_canonical) false text h .fresh
  refine ⟨.canonical, ((htheorem _).1 _ hrejected).2, ?_, ?_, ?_⟩
  · obtain ⟨_, _, -, -, -, -, -, hdeep, -⟩ := (htheorem _).2 _ (hnested 100)
    obtain ⟨k, -, hrefused⟩ := hdeep (hblocks 100).ge
    exact ⟨k, hrefused⟩
  · obtain ⟨_, _, -, -, -, -, -, -, hrefuse, -⟩ := (htheorem _).2 _ (hnested 21)
    obtain ⟨k, -, hrefused⟩ := hrefuse (by rw [hblocks]; decide) (by rw [hloops]; decide)
    exact ⟨k, hrefused⟩
  · obtain ⟨_, _, -, -, -, -, -, -, -, hrun⟩ := (htheorem _).2 _ (hnested 20)
    exact hrun (by rw [hblocks]; decide) (by rw [hloops])

end SetLang
