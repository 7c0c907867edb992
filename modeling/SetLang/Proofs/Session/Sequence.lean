import SetLang.Proofs.Execution.Sequence
import SetLang.Proofs.Program.Derivation
import SetLang.Proofs.Session.Entry

/-!
# Entries one after the other

Two entries on one machine are one entry with a line feed between them. Main statement: the tokens,
the statements and the lines of the two texts stand one after the other, and the two entries halt
exactly if the one entry does, with the same machine, the same output and the same input left. On a
fresh machine that is what a request for the joined text does.
-/

namespace SetLang

/-! ## Programs one after the other -/

@[simp] theorem layoutOf_append (depth : Nat) (first second : List Statement) :
    layoutOf depth (first ++ second) = layoutOf depth first ++ layoutOf depth second := by
  induction first with
  | nil => rfl
  | cons s first ih => simp [layoutOf, ih]

@[simp] theorem Node.nestingAll_append (counted : List NodeKind) (first second : List Node) :
    nestingAll counted (first ++ second) =
      max (nestingAll counted first) (nestingAll counted second) := by
  induction first with
  | nil => exact (Nat.zero_max _).symm
  | cons n first ih => simp [nestingAll, ih, Nat.max_assoc]

namespace Program

/-- The nesting of two programs one after the other is that of the deeper one. -/
theorem nesting_append {counted : List NodeKind} (hprogram : .program ∉ counted)
    (first second : Program) :
    (toNode (first ++ second)).nesting counted =
      max (first.toNode.nesting counted) (second.toNode.nesting counted) := by
  simp only [toNode, Node.nesting_of_notMem hprogram, toNodes_append, Node.nestingAll_append]

/-- Two programs that may run may do so one after the other. -/
theorem check_append {first second : Program}
    (hblocks : first.toNode.nesting Node.blockKinds < Listing.indentLimit)
    (hloops : first.toNode.nesting Node.loopKinds ≤ Listing.loopLimit)
    (hblocks' : second.toNode.nesting Node.blockKinds < Listing.indentLimit)
    (hloops' : second.toNode.nesting Node.loopKinds ≤ Listing.loopLimit) :
    (layoutOf 0 (first ++ second)).listing.check = .ok () := by
  refine check_of_le ?_ ?_
  · rw [nesting_append (by decide)]
    exact Nat.max_lt.2 ⟨hblocks, hblocks'⟩
  · rw [nesting_append (by decide)]
    exact Nat.max_le.2 ⟨hloops, hloops'⟩

end Program

namespace Listing

/-- The lines before a program are neither indented nor loops. -/
theorem check_preludeLines_append {listing : Listing} (h : listing.check = .ok ()) :
    check (preludeLines ++ listing) = .ok () := by
  unfold check at h ⊢
  split at h
  · cases h
  · next hdeep =>
    split at h
    · cases h
    · next hnested =>
      rw [tooDeepFrom_eq, Option.map_eq_none_iff] at hdeep
      rw [tooNestedFrom_eq, Option.map_eq_none_iff] at hnested
      -- the three lines are passed, and only the numbers of the others change
      have hdeep' : tooDeepFrom 1 (preludeLines ++ listing) = none := by
        show tooDeepFrom 4 listing = none
        rw [tooDeepFrom_eq, hdeep]
        rfl
      have hnested' : tooNestedFrom 1 [] (preludeLines ++ listing) = none := by
        show tooNestedFrom 4 [] listing = none
        rw [tooNestedFrom_eq, hnested]
        rfl
      rw [hdeep', hnested']

/-- A program is emitted as it is laid out, behind the lines before it. -/
theorem ofProgram_toNode (program : Program) :
    ofProgram program.toNode = .ok (preludeLines ++ (layoutOf 0 program).listing) := by
  obtain ⟨hresult, hlines⟩ := Emitter.node_toNode program
  show (Emitter.fresh.node program.toNode).1.map
    (fun _ => (Emitter.fresh.node program.toNode).2.listing) = _
  rw [hresult, hlines]
  rfl

end Listing

/-- A request to execute a text and to show nothing but its output. -/
def Request.toExecute (text : String) (aliases : AliasTable) : Request where
  source := text
  isText := true
  out := none
  execute := true
  pretty := false
  dumpTree := false
  aliases := aliases

/-! ## Hosts after runs -/

namespace Host

/-- A host after a run that wrote a text and left some input. -/
def wrote (h : Host) (out input : List Char) : Host :=
  say { h with console := { h.console with input } } (String.ofList out)

theorem wrote_wrote (h : Host) (out out' input input' : List Char) :
    (h.wrote out input).wrote out' input' = h.wrote (out ++ out') input' := by
  simp [wrote, say, Console.say, String.append_assoc]

variable {h shown : Host} {resolve : Resolver} {verbose : Bool} {text : String} {program : Program}

/-- A program is executed to its end by enough calls exactly if its run halts. -/
theorem exists_execute_eq_iff {machine machine' : Machine} {h' : Host} :
    (∃ calls left, h.execute calls machine program = (left, true, machine', h')) ↔
      ∃ out input, RunState.Halts ⟨program, machine, h.console.input⟩ out machine' input ∧
        h' = h.wrote out input := by
  let start : RunState := ⟨program, machine, h.console.input⟩
  have hexecute (calls : Nat) : h.execute calls machine program =
      (calls - (start.trace calls).length, (start.after (start.trace calls)).halted,
        (start.after (start.trace calls)).machine,
        h.wrote ((start.trace calls).flatMap fun c => c.1.written)
          (start.after (start.trace calls)).input) := by
    rw [execute, RunState.runFor_eq_trace, String.empty_append]
    rfl
  constructor
  · rintro ⟨calls, left, hrun⟩
    have hreaches := RunState.reaches_trace calls start
    rw [hexecute] at hrun
    generalize start.after (start.trace calls) = last at hrun hreaches
    obtain ⟨todo, m, input⟩ := last
    simp only [Prod.mk.injEq, RunState.halted, List.isEmpty_iff] at hrun
    obtain ⟨-, rfl, rfl, rfl⟩ := hrun
    exact ⟨_, input, hreaches, rfl⟩
  · rintro ⟨out, input, hhalts, rfl⟩
    obtain ⟨calls, hout, hafter⟩ := RunState.Reaches.exists_trace (r := start) hhalts
    refine ⟨calls, calls - (start.trace calls).length, ?_⟩
    rw [hexecute, hafter, hout]
    rfl

/-- A program that may run is left to be run, and nothing is shown. -/
theorem run_prepareEntry_of_check (hparse : parseText resolve text.toList = .ok program.toNode)
    (hcheck : (layoutOf 0 program).listing.check = .ok ()) (h : Host) :
    h.run (prepareEntry resolve false text) = (.ok program, h) := by
  rw [run_prepareEntry_of_ok hparse, hcheck]
  rfl

/-- An entry that is not refused comes to its end by enough calls exactly if its run halts. -/
theorem exists_runEntry_eq_done_iff {machine machine' : Machine} {h' : Host}
    (hprepare : h.run (prepareEntry resolve verbose text) = (.ok program, shown)) :
    (∃ calls, h.runEntry calls resolve verbose text machine = (.done, machine', h')) ↔
      ∃ out input, RunState.Halts ⟨program, machine, shown.console.input⟩ out machine' input ∧
        h' = shown.wrote out input := by
  rw [← exists_execute_eq_iff]
  refine exists_congr fun calls => ?_
  rw [runEntry, hprepare]
  dsimp only
  generalize shown.execute calls machine program = result
  obtain ⟨left, halted, m, after⟩ := result
  cases halted with
  | true => simp
  | false => simp

/-- To show the code of an entry is all that a verbose entry does besides. -/
theorem runEntry_verbose (hparse : parseText resolve text.toList = .ok program.toNode)
    (h : Host) (calls : Nat) (machine : Machine) :
    h.runEntry calls resolve true text machine =
      (h.say ("[py] >>>\n" ++ (layoutOf 0 program).listing.text ++ "\n")).runEntry calls resolve
        false text machine := by
  rw [runEntry, runEntry, run_prepareEntry_of_ok hparse, run_prepareEntry_of_ok hparse]
  rfl

/-- Two entries come to their ends one after the other exactly if the entry with both programs
does. -/
theorem runEntry_append {first second both : String} {program₁ program₂ : Program}
    {machine machine' : Machine} {h' : Host}
    (h₁ : ∀ h : Host, h.run (prepareEntry resolve false first) = (.ok program₁, h))
    (h₂ : ∀ h : Host, h.run (prepareEntry resolve false second) = (.ok program₂, h))
    (hboth : ∀ h : Host, h.run (prepareEntry resolve false both) = (.ok (program₁ ++ program₂), h)) :
    (∃ calls calls' middle between,
      h.runEntry calls resolve false first machine = (.done, middle, between) ∧
      between.runEntry calls' resolve false second middle = (.done, machine', h')) ↔
    ∃ calls, h.runEntry calls resolve false both machine = (.done, machine', h') := by
  rw [exists_runEntry_eq_done_iff (hboth h)]
  have hsplit (out input : List Char) : RunState.Halts ⟨program₁ ++ program₂, machine,
      h.console.input⟩ out machine' input ↔ _ :=
    RunState.halts_andThen_iff (r := ⟨program₁, machine, h.console.input⟩)
  constructor
  · rintro ⟨calls, calls', middle, between, hfirst, hsecond⟩
    obtain ⟨out₁, input₁, hhalts₁, rfl⟩ := (exists_runEntry_eq_done_iff (h₁ h)).1 ⟨calls, hfirst⟩
    obtain ⟨out₂, input₂, hhalts₂, rfl⟩ := (exists_runEntry_eq_done_iff (h₂ _)).1 ⟨calls', hsecond⟩
    exact ⟨out₁ ++ out₂, input₂, (hsplit _ _).2 ⟨out₁, out₂, middle, input₁, hhalts₁, hhalts₂, rfl⟩,
      wrote_wrote h _ _ _ _⟩
  · rintro ⟨out, input₂, hhalts, rfl⟩
    obtain ⟨out₁, out₂, middle, input₁, hhalts₁, hhalts₂, rfl⟩ := (hsplit _ _).1 hhalts
    obtain ⟨calls, hfirst⟩ := (exists_runEntry_eq_done_iff (h₁ h)).2 ⟨out₁, input₁, hhalts₁, rfl⟩
    obtain ⟨calls', hsecond⟩ := (exists_runEntry_eq_done_iff (h₂ (h.wrote out₁ input₁))).2
      ⟨out₂, input₂, hhalts₂, rfl⟩
    rw [wrote_wrote] at hsecond
    exact ⟨calls, calls', middle, _, hfirst, hsecond⟩

/-- A request to execute a text runs it as an entry on a fresh machine. -/
theorem perform_execute (h : Host) (calls : Nat) {aliases : AliasTable}
    (hparse : parseText aliases.kind? text.toList = .ok program.toNode)
    (hcheck : (layoutOf 0 program).listing.check = .ok ()) :
    h.perform calls (Command.carryOut (.toExecute text aliases)) =
      h.runEntry calls aliases.kind? false text .fresh := by
  let r : Request := .toExecute text aliases
  have hscript : h.run r.script = (.ok (some program), h) := by
    have hsource : h.run r.sourceText = (.ok text.toList, h) := rfl
    rw [Request.script, run_bind, hsource]
    show h.run (do
      let tree ← Script.ofExcept (parseText aliases.kind? text.toList)
      let listing ← Script.ofExcept (Listing.ofProgram tree)
      Script.ofExcept listing.check
      let program ← Script.ofExcept (Program.ofTree tree)
      return some program) = _
    rw [run_bind, run_ofExcept, hparse]
    dsimp only
    rw [run_bind, run_ofExcept, Listing.ofProgram_toNode]
    dsimp only
    rw [run_bind, run_ofExcept, Listing.check_preludeLines_append hcheck]
    dsimp only
    rw [run_bind, run_ofExcept, program.ofTree_toNode]
    rfl
  have hcarryOut : h.run (Command.carryOut r) = (.ok (.execute program), h) := by
    rw [Command.carryOut, run_bind, hscript]
    rfl
  rw [perform, hcarryOut, runEntry, run_prepareEntry_of_check hparse hcheck]

end Host

/-! ## Texts one after the other -/

/-- Entries one after the other are one entry. Two texts that are parsed under a reachable table, with
a line feed between them, have the tokens of the first one without its end mark and then those of the
second one, and they are parsed to the statements of both. They are emitted as the lines of the first
one and then those of the second one, and with the lines before a program in front of them if they
are emitted as a whole; the lines of each are read back as its statements. If neither of them nests
too deep, the two entries halt one after the other exactly if the one entry does, and then they leave
the same machine and the same host: the same output, the same input left, the same files. To show the
code is all that a verbose entry does besides. And a request to execute the joined text does what its
entry does on a fresh machine. -/
theorem entries_in_sequence {table : AliasTable} (htable : table.Reachable) {first second : String}
    {tree₁ tree₂ : Node} (h₁ : parseText table.kind? first.toList = .ok tree₁)
    (h₂ : parseText table.kind? second.toList = .ok tree₂) :
    let resolve : Resolver := table.kind?
    let joined := first ++ "\n" ++ second
    let tree : Node := .mk .program .absent (tree₁.children ++ tree₂.children)
    (∃ ts us all, tokenize resolve first.toList = .ok ts ∧ tokenize resolve second.toList = .ok us ∧
      tokenize resolve joined.toList = .ok all ∧
      all.map (fun t => (t.kind, t.value)) = (ts.dropLast ++ us).map fun t => (t.kind, t.value)) ∧
    parseText resolve joined.toList = .ok tree ∧
    ∃ listing₁ listing₂, Listing.ofStatements tree₁ = .ok listing₁ ∧
      Listing.ofStatements tree₂ = .ok listing₂ ∧
      Listing.ofStatements tree = .ok (listing₁ ++ listing₂) ∧
      Listing.ofProgram tree = .ok (preludeLines ++ (listing₁ ++ listing₂)) ∧
      (∀ emitted ∈ [(tree₁, listing₁), (tree₂, listing₂), (tree, listing₁ ++ listing₂)],
        (readStatements? (emitted.2.map (·.text.toList))).map Program.toNode = some emitted.1) ∧
      (tree₁.nesting Node.blockKinds < 100 → tree₁.nesting Node.loopKinds ≤ 20 →
        tree₂.nesting Node.blockKinds < 100 → tree₂.nesting Node.loopKinds ≤ 20 →
        (∀ (h : Host) (machine machine' : Machine) (h' : Host),
          (∃ calls calls' middle between,
            h.runEntry calls resolve false first machine = (.done, middle, between) ∧
            between.runEntry calls' resolve false second middle = (.done, machine', h')) ↔
          ∃ calls, h.runEntry calls resolve false joined machine = (.done, machine', h')) ∧
        (∀ entry ∈ [(first, listing₁), (second, listing₂), (joined, listing₁ ++ listing₂)],
          ∀ (h : Host) (calls : Nat) (machine : Machine),
            h.runEntry calls resolve true entry.1 machine =
              (h.say ("[py] >>>\n" ++ entry.2.text ++ "\n")).runEntry calls resolve false entry.1
                machine) ∧
        ∀ (h : Host) (calls : Nat),
          h.perform calls (Command.carryOut (.toExecute joined table)) =
            h.runEntry calls resolve false joined .fresh) := by
  intro resolve joined tree
  have hresolve : resolve.Canonical := htable.canonical_kind?
  have hjoined : joined.toList = first.toList ++ '\n' :: second.toList := by
    simp [joined]
  have hparse : parseText resolve joined.toList = .ok tree := by
    rw [hjoined]
    exact parseText_append_lineFeed hresolve h₁ h₂
  refine ⟨?_, hparse, ?_⟩
  · obtain ⟨ts, hts⟩ := exists_tokenized_of_parseText hresolve h₁
    obtain ⟨us, hus⟩ := exists_tokenized_of_parseText hresolve h₂
    obtain ⟨all, hall, hcontents⟩ := hts.exists_append_lineFeed hus
    refine ⟨ts, us, all, tokenize_eq_ok_iff.2 hts, tokenize_eq_ok_iff.2 hus, ?_, hcontents⟩
    rw [hjoined]
    exact tokenize_eq_ok_iff.2 hall
  · obtain ⟨program₁, rfl⟩ := exists_program_of_parseText hresolve h₁
    obtain ⟨program₂, rfl⟩ := exists_program_of_parseText hresolve h₂
    have htree : tree = Program.toNode (program₁ ++ program₂) := by
      rw [Program.toNode, toNodes_append]
      rfl
    have hlisting : (layoutOf 0 (program₁ ++ program₂)).listing =
        (layoutOf 0 program₁).listing ++ (layoutOf 0 program₂).listing := by
      simp
    have hread (program : Program) : (readStatements?
        ((layoutOf 0 program).listing.map (·.text.toList))).map Program.toNode =
          some program.toNode := by
      rw [readStatements?_listing, Option.map_some]
    rw [htree] at hparse ⊢
    refine ⟨_, _, Listing.ofStatements_toNode program₁, Listing.ofStatements_toNode program₂, ?_⟩
    rw [← hlisting]
    refine ⟨Listing.ofStatements_toNode _, Listing.ofProgram_toNode _, ?_,
      fun hblocks₁ hloops₁ hblocks₂ hloops₂ => ⟨fun h machine machine' h' => ?_, ?_, ?_⟩⟩
    · simp only [List.forall_mem_cons]
      exact ⟨hread program₁, hread program₂, hread (program₁ ++ program₂), by simp⟩
    · have hcheck₁ := Program.check_of_le hblocks₁ hloops₁
      have hcheck₂ := Program.check_of_le hblocks₂ hloops₂
      have hcheck := Program.check_append hblocks₁ hloops₁ hblocks₂ hloops₂
      exact Host.runEntry_append (Host.run_prepareEntry_of_check h₁ hcheck₁)
        (Host.run_prepareEntry_of_check h₂ hcheck₂) (Host.run_prepareEntry_of_check hparse hcheck)
    · simp only [List.forall_mem_cons]
      exact ⟨Host.runEntry_verbose h₁, Host.runEntry_verbose h₂, Host.runEntry_verbose hparse, by simp⟩
    · intro h calls
      exact h.perform_execute calls hparse (Program.check_append hblocks₁ hloops₁ hblocks₂ hloops₂)

/-- A comment at the end of the first entry, which counts, and a second one that writes a character and
reads one: as one entry they are three statements, and the host and the machine are as after both. -/
theorem entries_in_sequence_comment :
    let resolve : Resolver := AliasTable.canonical.kind?
    let h : Host := ⟨⟨[]⟩, .ofInput "xy"⟩
    let joined := "inc # one" ++ "\n" ++ "\"a\"read"
    AliasTable.Reachable .canonical ∧
      parseText resolve "inc # one".toList = .ok (.mk .program .absent [.leaf .increment]) ∧
      parseText resolve "\"a\"read".toList =
        .ok (.mk .program .absent [.mk .printChar (.text "a") [], .leaf .readChar]) ∧
      parseText resolve joined.toList = .ok (.mk .program .absent
        [.leaf .increment, .mk .printChar (.text "a") [], .leaf .readChar]) ∧
      ∃ calls, h.runEntry calls resolve false joined .fresh =
        (.done, ⟨.empty, 1, some 'x'⟩, ⟨⟨[]⟩, ⟨['y'], [], "a"⟩⟩) := by
  intro resolve h joined
  have h₁ : parseText resolve "inc # one".toList =
      .ok (.mk .program .absent [.leaf .increment]) := by rfl
  have h₂ : parseText resolve "\"a\"read".toList =
      .ok (.mk .program .absent [.mk .printChar (.text "a") [], .leaf .readChar]) := by rfl
  have hfirst : h.runEntry 9 resolve false "inc # one" .fresh = (.done, ⟨.empty, 1, none⟩, h) := by
    rfl
  have hsecond : h.runEntry 9 resolve false "\"a\"read" ⟨.empty, 1, none⟩ =
      (.done, ⟨.empty, 1, some 'x'⟩, ⟨⟨[]⟩, ⟨['y'], [], "a"⟩⟩) := by rfl
  obtain ⟨-, hparse, _, _, -, -, -, -, -, hrun⟩ := entries_in_sequence .canonical h₁ h₂
  obtain ⟨hentries, -, -⟩ := hrun (by decide) (by decide) (by decide) (by decide)
  exact ⟨.canonical, h₁, h₂, hparse, (hentries _ _ _ _).1 ⟨9, 9, _, _, hfirst, hsecond⟩⟩

end SetLang
