import SetLang.Proofs.Session.Line
import SetLang.Proofs.Json.RoundTrip

/-!
# Sessions that go on

A session takes line after line until it is left or the input ends. Main statement: on its way every
entry is answered, and a session that falls or is cut off does so in an entry. If its programs come to
their ends, its variable stays short enough to be shown and no configuration has a symbol whose
refusal cannot be told, then the session ends at the end of the input or by a line that leaves it.
-/

namespace SetLang

/-! ## Rounds -/

namespace Host

/-- A host that has shown the prompt of a session. -/
def prompted (h : Host) (s : Session) : Host :=
  { h with console := h.console.prompt s.prompt }

/-- The line that a session takes next, and the host after it. -/
def nextLine? (h : Host) (s : Session) : Option (String × Host) :=
  (h.console.prompt s.prompt).takeLine?.map fun (line, console) => (line, { h with console })

/-- The next line of a session completes an entry. -/
def Faces (h : Host) (s : Session) (h' : Host) (text : String) : Prop :=
  ∃ line, h.nextLine? s = some (line, h') ∧ s.Completes line text

/-- The next line of a session completes an entry whose program is left to be run. -/
def Prepares (h : Host) (s : Session) (program : Program) (shown : Host) : Prop :=
  ∃ h' text, h.Faces s h' text ∧ Session.entryKind text = .program ∧
    h'.run (prepareEntry s.aliases.kind? s.verbose text) = (.ok program, shown)

/-- A session goes on line by line. -/
inductive Rounds : Host → Session → Host → Session → Prop where
  | refl (h : Host) (s : Session) : Rounds h s h s
  | head {h taken h₁ h' : Host} {s s₁ s' : Session} {line : String} :
      h.nextLine? s = some (line, taken) → s.Takes taken line s₁ h₁ → Rounds h₁ s₁ h' s' →
      Rounds h s h' s'

/-- How a session ends: at the end of the input, by a line that leaves it, in a program that is cut
off, or by a fault. -/
inductive Ends (h : Host) (s : Session) : Ending × Session × Host → Prop where
  | atEnd : h.nextLine? s = none → Ends h s (.done, s, (h.prompted s).say Session.farewell)
  | left {line : String} {taken : Host} : h.nextLine? s = some (line, taken) → s.Leaves line →
      Ends h s (.done, s, taken.say ("Exiting Zermelo REPL." ++ "\n"))
  | cutOff {program : Program} {shown h' : Host} {calls left : Nat} {machine : Machine} :
      h.Prepares s program shown →
      shown.execute calls s.machine program = (left, false, machine, h') →
      Ends h s (.limit, { s with pending := [], machine }, h')
  | fallen {taken h' : Host} {text : String} {fault : Fault} : h.Faces s taken text →
      Session.Falls taken { s with pending := [] } text fault h' → Ends h s (.fault fault, s, h')

variable {h h' : Host} {s s' : Session}

theorem length_input_lt_of_nextLine? {line : String} (hnext : h.nextLine? s = some (line, h')) :
    h'.console.input.length < h.console.input.length := by
  obtain ⟨⟨_, console⟩, htake, hline⟩ := Option.map_eq_some_iff.1 hnext
  obtain ⟨-, rfl⟩ := Prod.mk.inj hline
  unfold Console.takeLine? at htake
  split at htake
  · cases htake
  · next hinput =>
    obtain ⟨-, rfl⟩ := Prod.mk.inj (Option.some.inj htake)
    have hpos : 0 < h.console.input.length := List.length_pos_iff.2 (mt List.isEmpty_iff.2 hinput)
    show (h.console.input.drop _).length < _
    rw [List.length_drop]
    omega

theorem Faces.of_nextLine? {line text : String} {taken : Host} (hfaces : h.Faces s h' text)
    (hnext : h.nextLine? s = some (line, taken)) : h' = taken ∧ s.Completes line text := by
  obtain ⟨line', hnext', hcompletes⟩ := hfaces
  obtain ⟨rfl, rfl⟩ := Prod.mk.inj (Option.some.inj (hnext.symm.trans hnext'))
  exact ⟨rfl, hcompletes⟩

/-- A session that is left has no entry before it. -/
theorem not_faces_of_leaves {line text : String} {taken : Host}
    (hnext : h.nextLine? s = some (line, taken)) (hleaves : s.Leaves line) : ¬ h.Faces s h' text :=
  fun hfaces => (hfaces.of_nextLine? hnext).2.not_leaves hleaves

/-- What follows on what comes of a line: the session ends, or it goes on, after a program has run. -/
def settle (rounds calls : Nat) (s : Session) :
    Except Fault Reaction × Host → Ending × Session × Host
  | (.error fault, h) => (.fault fault, s, h)
  | (.ok .leave, h) => (.done, s, h)
  | (.ok (.proceed s), h) => converse rounds calls h s
  | (.ok (.execute s program), h) =>
    match h.execute calls s.machine program with
    | (calls, true, machine, h) => converse rounds calls h { s with machine }
    | (_, false, machine, h) => (.limit, { s with machine }, h)

theorem converse_of_none (hnext : h.nextLine? s = none) (rounds calls : Nat) :
    converse (rounds + 1) calls h s = (.done, s, (h.prompted s).say Session.farewell) := by
  rw [converse]
  dsimp only
  rw [Option.map_eq_none_iff.1 hnext]
  rfl

theorem converse_of_some {line : String} (hnext : h.nextLine? s = some (line, h'))
    (rounds calls : Nat) :
    converse (rounds + 1) calls h s = settle rounds calls s (h'.run (s.enter line)) := by
  obtain ⟨⟨_, console⟩, htake, hline⟩ := Option.map_eq_some_iff.1 hnext
  obtain ⟨rfl, rfl⟩ := Prod.mk.inj hline
  rw [converse]
  dsimp only
  rw [htake]
  rfl

/-- However many calls it may make, a session goes on line by line until it ends. -/
theorem exists_rounds_ends (rounds calls : Nat) (hs : s.IsSound)
    (hrounds : h.console.input.length < rounds) :
    ∃ h₁ s₁, h.Rounds s h₁ s₁ ∧ h₁.Ends s₁ (converse rounds calls h s) := by
  induction rounds generalizing calls h s with
  | zero => cases hrounds
  | succ rounds ih =>
    cases hnext : h.nextLine? s with
    | none =>
      rw [converse_of_none hnext]
      exact ⟨h, s, .refl h s, .atEnd hnext⟩
    | some next =>
      obtain ⟨line, taken⟩ := next
      have hshorter := length_input_lt_of_nextLine? hnext
      have hgoesOn {s₁ : Session} {h₁ : Host} (calls : Nat) (htakes : s.Takes taken line s₁ h₁) :
          ∃ h₂ s₂, h.Rounds s h₂ s₂ ∧ h₂.Ends s₂ (converse rounds calls h₁ s₁) := by
        have hlength := htakes.input_length_le
        obtain ⟨h₂, s₂, hlater, hends⟩ := ih (h := h₁) calls (htakes.isSound hs) (by omega)
        exact ⟨h₂, s₂, .head hnext htakes hlater, hends⟩
      have houtcome := Session.run_enter (h := taken) hs line
      rw [converse_of_some hnext]
      generalize taken.run (s.enter line) = result at houtcome
      cases houtcome with
      | leaves hleaves => exact ⟨h, s, .refl h s, .left hnext hleaves⟩
      | collects hleaves hcontinues => exact hgoesOn calls (.collected hleaves hcontinues)
      | completes hcompletes houtcome =>
        cases houtcome with
        | answered hanswers => exact hgoesOn calls (.answered hcompletes hanswers)
        | fallen hfalls => exact ⟨h, s, .refl h s, .fallen ⟨line, hnext, hcompletes⟩ hfalls⟩
        | @prepared program shown hkind hprepare =>
          rw [settle]
          cases hexecute : shown.execute calls s.machine program with
          | mk left rest =>
            obtain ⟨halted, machine, h₁⟩ := rest
            cases halted with
            | true =>
              obtain ⟨out, input, hhalts, rfl⟩ := exists_execute_eq_iff.1 ⟨calls, left, hexecute⟩
              exact hgoesOn left (.answered hcompletes (.executed hkind hprepare hhalts))
            | false =>
              exact ⟨h, s, .refl h s,
                .cutOff ⟨taken, _, ⟨line, hnext, hcompletes⟩, hkind, hprepare⟩ hexecute⟩

/-- A session that falls in an entry ends with its fault. -/
theorem converse_of_falls {taken : Host} {text : String} {fault : Fault}
    (hfaces : h.Faces s taken text)
    (hfalls : Session.Falls taken { s with pending := [] } text fault h') (rounds calls : Nat) :
    converse (rounds + 1) calls h s = (.fault fault, s, h') := by
  obtain ⟨line, hnext, hcompletes⟩ := hfaces
  rw [converse_of_some hnext, Session.enter_of_completes hcompletes,
    Session.run_carryOut_of_falls hfalls, settle]

/-! ## Calls to spare -/

theorem execute_add {calls left : Nat} {machine machine' : Machine} {program : Program}
    (hexecute : h.execute calls machine program = (left, true, machine', h')) (more : Nat) :
    h.execute (calls + more) machine program = (left + more, true, machine', h') := by
  rw [execute] at hexecute ⊢
  generalize hrun : RunState.runFor calls ⟨program, machine, h.console.input⟩ "" = result at hexecute
  obtain ⟨left', last, out⟩ := result
  simp only [Prod.mk.injEq] at hexecute
  obtain ⟨rfl, hhalted, rfl, rfl⟩ := hexecute
  rw [RunState.runFor_add hrun hhalted]
  simp only [hhalted]

/-- A session that is not cut off does not use the calls that it may make besides. -/
theorem converse_add {rounds calls : Nat} (hend : (converse rounds calls h s).1 ≠ .limit)
    (more : Nat) : converse rounds (calls + more) h s = converse rounds calls h s := by
  induction rounds generalizing calls h s with
  | zero => exact absurd rfl hend
  | succ rounds ih =>
    cases hnext : h.nextLine? s with
    | none => rw [converse_of_none hnext, converse_of_none hnext]
    | some next =>
      obtain ⟨line, taken⟩ := next
      rw [converse_of_some hnext] at hend
      rw [converse_of_some hnext, converse_of_some hnext]
      generalize taken.run (s.enter line) = result at hend
      obtain ⟨reaction, h₁⟩ := result
      cases reaction with
      | error fault => rfl
      | ok reaction =>
        cases reaction with
        | leave => rfl
        | proceed s₁ => exact ih hend
        | execute s₁ program =>
          rw [settle] at hend
          rw [settle, settle]
          cases hexecute : h₁.execute calls s₁.machine program with
          | mk left rest =>
            obtain ⟨halted, machine, h₂⟩ := rest
            rw [hexecute] at hend
            cases halted with
            | false => exact absurd rfl hend
            | true =>
              rw [execute_add hexecute]
              exact ih hend

/-- All programs that a session prepares come to their ends. -/
def ProgramsHalt (h : Host) (s : Session) : Prop :=
  ∀ h₁ s₁ program shown, h.Rounds s h₁ s₁ → h₁.Prepares s₁ program shown →
    ∃ out machine input, RunState.Halts ⟨program, s₁.machine, shown.console.input⟩ out machine input

theorem ProgramsHalt.of_takes {taken h₁ : Host} {s₁ : Session} {line : String}
    (hhalt : h.ProgramsHalt s) (hnext : h.nextLine? s = some (line, taken))
    (htakes : s.Takes taken line s₁ h₁) : h₁.ProgramsHalt s₁ :=
  fun h₂ s₂ program shown hrounds => hhalt h₂ s₂ program shown (.head hnext htakes hrounds)

/-- If its programs come to their ends, enough calls bring a session to its end. -/
theorem exists_converse_ne_limit (rounds : Nat) (hs : s.IsSound) (hhalt : h.ProgramsHalt s)
    (hrounds : h.console.input.length < rounds) :
    ∃ calls, (converse rounds calls h s).1 ≠ .limit := by
  induction rounds generalizing h s with
  | zero => cases hrounds
  | succ rounds ih =>
    cases hnext : h.nextLine? s with
    | none =>
      refine ⟨0, ?_⟩
      rw [converse_of_none hnext]
      exact Ending.noConfusion
    | some next =>
      obtain ⟨line, taken⟩ := next
      have hshorter := length_input_lt_of_nextLine? hnext
      have hgoesOn {s₁ : Session} {h₁ : Host} (htakes : s.Takes taken line s₁ h₁) :
          ∃ calls, (converse rounds calls h₁ s₁).1 ≠ .limit := by
        have hlength := htakes.input_length_le
        exact ih (h := h₁) (htakes.isSound hs) (hhalt.of_takes hnext htakes) (by omega)
      have houtcome := Session.run_enter (h := taken) hs line
      simp only [converse_of_some hnext]
      generalize taken.run (s.enter line) = result at houtcome
      cases houtcome with
      | leaves hleaves => exact ⟨0, Ending.noConfusion⟩
      | collects hleaves hcontinues => exact hgoesOn (.collected hleaves hcontinues)
      | completes hcompletes houtcome =>
        cases houtcome with
        | answered hanswers => exact hgoesOn (.answered hcompletes hanswers)
        | fallen hfalls => exact ⟨0, Ending.noConfusion⟩
        | @prepared program shown hkind hprepare =>
          obtain ⟨out, machine, input, hhalts⟩ :=
            hhalt h s program shown (.refl h s) ⟨taken, _, ⟨line, hnext, hcompletes⟩, hkind, hprepare⟩
          obtain ⟨calls, left, hexecute⟩ := exists_execute_eq_iff.2 ⟨out, input, hhalts, rfl⟩
          obtain ⟨later, hend⟩ := hgoesOn (.answered hcompletes (.executed hkind hprepare hhalts))
          -- the calls of the program and those of the rest of the session
          refine ⟨calls + later, ?_⟩
          rw [settle, execute_add hexecute, Nat.add_comm]
          dsimp only
          rw [converse_add hend]
          exact hend

/-- A session goes no further than to a line that leaves it. -/
theorem Rounds.eq_of_leaves {line : String} {taken : Host} (hrounds : h.Rounds s h' s')
    (hnext : h.nextLine? s = some (line, taken)) (hleaves : s.Leaves line) : h' = h ∧ s' = s := by
  cases hrounds with
  | refl => exact ⟨rfl, rfl⟩
  | head hnext' htakes =>
    obtain ⟨rfl, rfl⟩ := Prod.mk.inj (Option.some.inj (hnext.symm.trans hnext'))
    cases htakes with
    | collected hnot => exact absurd hleaves hnot
    | answered hcompletes => exact absurd hleaves hcompletes.not_leaves

theorem Ends.endsSession {fault : Fault} (hends : h.Ends s (.fault fault, s', h')) :
    fault.EndsSession := by
  cases hends with
  | fallen _ hfalls => exact hfalls.endsSession

/-! ## Sessions from the start -/

/-- The next entry of a session is an alias command, and its configuration has a symbol whose refusal
cannot be told. -/
def Misnames (h : Host) (s : Session) : Prop :=
  ∃ taken text argument told entries name, h.Faces s taken text ∧
    Session.entryKind text = .aliasCommand argument ∧
    AliasTable.Brings taken.files argument (.ok (.dict entries)) told ∧
    AliasTable.Reaches name entries ∧ name.IsUntellable

end Host

/-- A session with the default words and a fresh machine goes on line by line: each line is
collected, or its entry is answered, which means that it is carried out or that its refusal is told
and nothing changes. So it goes on until the input ends, a line leaves it, a program is cut off, or
the session falls, with one of four faults. If its programs come to their ends, its variable stays
short enough to be shown and no configuration has a symbol whose refusal cannot be told, then enough
calls bring it to the end of the input or to a line that leaves it. And wherever an entry is one that
sessions fall in, the session ends with that fault. -/
theorem session_survives (h : Host) (verbose : Bool) :
    let start := Session.fresh verbose .canonical
    (∀ calls, ∃ h₁ s₁, h.Rounds start h₁ s₁ ∧ h₁.Ends s₁ (h.holdSession calls start)) ∧
    (∀ calls fault, (h.holdSession calls start).1 = .fault fault → fault.EndsSession) ∧
    (h.ProgramsHalt start →
      (∀ h₁ s₁, h.Rounds start h₁ s₁ →
        s₁.machine.var < 10 ^ decimalDigitLimit ∧ ¬ h₁.Misnames s₁) →
      ∃ calls h₁ s₁ h', h.Rounds start h₁ s₁ ∧ h.holdSession calls start = (.done, s₁, h') ∧
        (h₁.nextLine? s₁ = none ∨
          ∃ line taken, h₁.nextLine? s₁ = some (line, taken) ∧ s₁.Leaves line)) ∧
    ∀ (h₁ taken h' : Host) (s₁ : Session) text fault calls, h₁.Faces s₁ taken text →
      Session.Falls taken { s₁ with pending := [] } text fault h' →
      h₁.holdSession calls s₁ = (.fault fault, s₁, h') := by
  intro start
  have hstart : start.IsSound := Session.isSound_fresh verbose
  have hlength : h.console.input.length < h.console.input.length + 1 := Nat.lt_succ_self _
  have hrounds (calls : Nat) :
      ∃ h₁ s₁, h.Rounds start h₁ s₁ ∧ h₁.Ends s₁ (h.holdSession calls start) :=
    h.exists_rounds_ends _ calls hstart hlength
  refine ⟨hrounds, fun calls fault hfault => ?_, fun hhalt hgood => ?_,
    fun h₁ taken h' s₁ text fault calls hfaces hfalls =>
      Host.converse_of_falls hfaces hfalls _ calls⟩
  · obtain ⟨h₁, s₁, -, hends⟩ := hrounds calls
    generalize h.holdSession calls start = result at hfault hends
    obtain ⟨ending, s', h'⟩ := result
    subst hfault
    exact hends.endsSession
  · obtain ⟨calls, hend⟩ := h.exists_converse_ne_limit _ hstart hhalt hlength
    obtain ⟨h₁, s₁, hreached, hends⟩ := hrounds calls
    obtain ⟨hvar, hnames⟩ := hgood h₁ s₁ hreached
    refine ⟨calls, h₁, s₁, ?_⟩
    unfold Host.holdSession at hends ⊢
    generalize Host.converse (h.console.input.length + 1) calls h start = result at hend hends
    cases hends with
    | atEnd hnone => exact ⟨_, hreached, rfl, .inl hnone⟩
    | left hnext hleaves => exact ⟨_, hreached, rfl, .inr ⟨_, _, hnext, hleaves⟩⟩
    | cutOff => exact absurd rfl hend
    | fallen hfaces hfalls =>
      cases hfalls with
      | commanded hkind hfails =>
        obtain ⟨told, entries, name, hname⟩ := hfails.exists_isUntellable
        exact absurd ⟨_, _, _, told, entries, name, hfaces, hkind, hname⟩ hnames
      | tooLong _ hlong => exact absurd hlong (Int.not_le.2 hvar)

theorem RunState.Halts.eq_of_flip {e : Expr} {m machine : Machine} {input left out : List Char}
    (h : Halts ⟨[.flip e], m, input⟩ out machine left) :
    out = [] ∧ machine = m.flip (e.eval m.var) ∧ left = input := by
  cases h with
  | head hstep hrest =>
    obtain ⟨rfl, rfl⟩ := Prod.mk.inj (Option.some.inj hstep)
    cases hrest with
    | refl => exact ⟨rfl, rfl, rfl⟩
    | head hstep => cases hstep

/-- A session that flips an integer, and is left. -/
theorem session_survives_flip :
    let h : Host := ⟨⟨[]⟩, .ofInput "flip 1\nexit\n"⟩
    let start := Session.fresh false .canonical
    h.ProgramsHalt start ∧
      (∀ h₁ s₁, h.Rounds start h₁ s₁ →
        s₁.machine.var < 10 ^ decimalDigitLimit ∧ ¬ h₁.Misnames s₁) ∧
      ∃ calls h₁ s₁ h', h.Rounds start h₁ s₁ ∧ h.holdSession calls start = (.done, s₁, h') ∧
        (h₁.nextLine? s₁ = none ∨
          ∃ line taken, h₁.nextLine? s₁ = some (line, taken) ∧ s₁.Leaves line) := by
  intro h start
  let taken : Host := ⟨⟨[]⟩, ⟨"exit\n".toList, [">>> "], ""⟩⟩
  let program : Program := [.flip (.literal 1)]
  let flipped : Session := { start with machine := Machine.fresh.flip 1 }
  have hnext : h.nextLine? start = some ("flip 1", taken) := by rfl
  have hexit : (taken.wrote [] "exit\n".toList).nextLine? flipped =
    some ("exit", ⟨⟨[]⟩, ⟨[], [">>> ", ">>> "], ""⟩⟩) := by rfl
  have hleaves : flipped.Leaves "exit" := ⟨rfl, .inl (by rfl)⟩
  have hkind : Session.entryKind "flip 1" = .program := by rfl
  have hprepare : taken.run (prepareEntry (AliasTable.kind? .canonical) false "flip 1") =
      (.ok program, taken) :=
    Host.run_prepareEntry_of_check (by rfl) (Program.check_of_le (by decide) (by decide)) taken
  have hstrip : Text.strip "flip 1" = "flip 1" := by rfl
  have htext {text : String} (hcompletes : start.Completes "flip 1" text) : text = "flip 1" :=
    (hcompletes.text_eq_strip rfl).trans hstrip
  -- the session takes one line before the one that leaves it
  have hrounds {h₁ : Host} {s₁ : Session} (hrounds : h.Rounds start h₁ s₁) :
      (h₁ = h ∧ s₁ = start) ∨ (h₁ = taken.wrote [] "exit\n".toList ∧ s₁ = flipped) := by
    cases hrounds with
    | refl => exact .inl ⟨rfl, rfl⟩
    | head hnext' htakes hlater =>
      obtain ⟨rfl, rfl⟩ := Prod.mk.inj (Option.some.inj (hnext.symm.trans hnext'))
      refine .inr ?_
      cases htakes with
      | collected _ hcontinues => exact absurd hcontinues (by decide)
      | answered hcompletes hanswers =>
        obtain rfl := htext hcompletes
        cases hanswers with
        | refused _ hrefused => cases hprepare.symm.trans hrefused
        | executed _ hprepared hends =>
          obtain ⟨hprogram, rfl⟩ := Prod.mk.inj (hprepare.symm.trans hprepared)
          obtain rfl := Except.ok.inj hprogram
          obtain ⟨rfl, rfl, rfl⟩ := hends.eq_of_flip
          exact hlater.eq_of_leaves hexit hleaves
        | skipped hother | toggled hother | shown hother | commanded hother =>
          cases hkind.symm.trans hother
  have hfaces {taken' : Host} {text : String} (hfaces : h.Faces start taken' text) :
      taken' = taken ∧ text = "flip 1" :=
    (hfaces.of_nextLine? hnext).imp_right htext
  have hhalt : h.ProgramsHalt start := by
    rintro h₁ s₁ prepared shown hreached ⟨taken', text, hentry, -, hprepared⟩
    obtain ⟨rfl, rfl⟩ | ⟨rfl, rfl⟩ := hrounds hreached
    · obtain ⟨rfl, rfl⟩ := hfaces hentry
      obtain ⟨hprogram, rfl⟩ := Prod.mk.inj (hprepare.symm.trans hprepared)
      obtain rfl := Except.ok.inj hprogram
      exact ⟨_, _, _, .head rfl (.refl _)⟩
    · exact absurd hentry (Host.not_faces_of_leaves hexit hleaves)
  have hgood : ∀ h₁ s₁, h.Rounds start h₁ s₁ →
      s₁.machine.var < 10 ^ decimalDigitLimit ∧ ¬ h₁.Misnames s₁ := by
    have hpos : (0 : Int) < 10 ^ decimalDigitLimit := Int.pow_pos (by decide)
    intro h₁ s₁ hreached
    obtain ⟨rfl, rfl⟩ | ⟨rfl, rfl⟩ := hrounds hreached
    · refine ⟨hpos, ?_⟩
      rintro ⟨taken', text, _, _, _, _, hentry, hcommand, -⟩
      obtain ⟨rfl, rfl⟩ := hfaces hentry
      cases hkind.symm.trans hcommand
    · refine ⟨hpos, ?_⟩
      rintro ⟨taken', text, _, _, _, _, hentry, -⟩
      exact Host.not_faces_of_leaves hexit hleaves hentry
  exact ⟨hhalt, hgood, (session_survives h false).2.2.1 hhalt hgood⟩

/-- Sessions that are given a list, and half of a pair, for a symbol. They run no program and their
variable is zero, and yet they fall: the first one before it says anything, and the second one behind
the heading of its refusal. The line that would leave them is not taken. -/
theorem holdSession_untellable_symbol :
    let start := Session.fresh false .canonical
    let list : Host := ⟨⟨[]⟩, .ofInput "sugar \x7b\"a\": []\x7d\nexit\n"⟩
    let half : Host := ⟨⟨[]⟩, .ofInput "sugar \x7b\"a\": \"\\ud800\"\x7d\nexit\n"⟩
    start.machine.var = 0 ∧ ∀ calls,
      list.holdSession calls start = (.fault (.unhashable "list"), start,
        ⟨⟨[]⟩, ⟨"exit\n".toList, [">>> "], ""⟩⟩) ∧
      half.holdSession calls start =
        (.fault (.unencodable ⟨⟨0xD800, by decide⟩, 29, 1⟩), start,
        ⟨⟨[]⟩, ⟨"exit\n".toList, [">>> "], "[error] >>> Failed to configure sugar aliases:\n"⟩⟩) := by
  intro start list half
  let taken : Host := ⟨⟨[]⟩, ⟨"exit\n".toList, [">>> "], ""⟩⟩
  have hends {h h' : Host} {line argument : String} {fault : Fault} (calls : Nat)
      (hnext : h.nextLine? start = some (line, taken)) (hleaves : ¬start.Leaves line)
      (hcontinues : ¬start.Continues line) (hstrip : Text.strip line = line)
      (hkind : Session.entryKind line = .aliasCommand argument)
      (hfails : AliasTable.Fails taken argument fault h') :
      h.holdSession calls start = (.fault fault, start, h') :=
    Host.converse_of_falls ⟨line, hnext, hleaves, hcontinues, hstrip.symm⟩
      (.commanded hkind hfails) _ calls
  refine ⟨rfl, fun calls => ⟨?_, ?_⟩⟩
  · have hexact : Json.IsExact (.object [("a", .array [])]) :=
      .object (by decide) (List.forall_mem_singleton.2 (.array (List.forall_mem_nil _)))
    have hread : Json.readWide "\x7b\"a\": []\x7d".toList =
        .ok (.object [("a", .array [])]) := hexact.readWide_eq .line (by decide)
    have hbrings : AliasTable.Brings taken.files "\x7b\"a\": []\x7d"
      (.ok (.dict [(.text "a", .list [])])) AliasTable.updatedText := .json (by rfl) hread
    have hnext : list.nextLine? start = some ("sugar \x7b\"a\": []\x7d", taken) := by rfl
    have hkind : Session.entryKind "sugar \x7b\"a\": []\x7d" =
      .aliasCommand "\x7b\"a\": []\x7d" := by rfl
    exact hends calls hnext (by decide) (by decide) (by rfl) hkind (.unhashable hbrings .here rfl)
  · let symbol : WideText := ⟨[.lone ⟨0xD800, by decide⟩]⟩
    have hread : Json.readWide "\x7b\"a\": \"\\ud800\"\x7d".toList =
        .ok (.object [("a", .string symbol)]) := by cbv
    have hbrings : AliasTable.Brings taken.files "\x7b\"a\": \"\\ud800\"\x7d"
      (.ok (.dict [(.text "a", .text symbol)])) AliasTable.updatedText := .json (by rfl) hread
    have hnext : half.nextLine? start = some ("sugar \x7b\"a\": \"\\ud800\"\x7d", taken) := by rfl
    have hkind : Session.entryKind "sugar \x7b\"a\": \"\\ud800\"\x7d" =
      .aliasCommand "\x7b\"a\": \"\\ud800\"\x7d" := by rfl
    have hencode : (AliasCause.unknownSymbol symbol).message.encode =
      .error ⟨⟨0xD800, by decide⟩, 29, 1⟩ := by cbv
    exact hends calls hnext (by decide) (by decide) (by rfl) hkind (.half hbrings .here hencode)

end SetLang
