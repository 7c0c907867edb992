import SetLang.Proofs.Session.Line

/-!
# Where the integers of a machine come from

Entries are run on a fresh machine one after the other, each of them as far as its calls go. Main
statement: the variable is the number of increments that were made, and every integer that the machine
lists, for a finite set or a cofinite one, is a literal of a program that was executed or is a natural
number up to the variable. So no negative integer is ever listed, and the machine can be shown for as
long as its variable can.
-/

namespace SetLang

/-! ## Entries on one machine -/

/-- An entry as a machine meets it: the host that it is run on, the words that it is read by, whether
its code is shown, its text, and how many calls it may make. -/
structure Turn where
  host : Host
  aliases : Option AliasTable
  reachable : ∀ table ∈ aliases, table.Reachable
  verbose : Bool
  text : String
  calls : Nat

namespace Turn

/-- The words of an entry. -/
def resolver (t : Turn) : Resolver :=
  .ofTable? t.aliases

/-- What an entry is prepared as, before anything of it runs: a program or a fault, and the host. -/
def prepared (t : Turn) : Except Fault Program × Host :=
  t.host.run (prepareEntry t.resolver t.verbose t.text)

/-- An entry is not refused, so the program of its tree is executed. -/
def Executes (t : Turn) (tree : Node) : Prop :=
  parseText t.resolver t.text.toList = .ok tree ∧ ∃ program shown, t.prepared = (.ok program, shown)

/-- The calls that an entry makes of a machine; none if it is refused. -/
def made (t : Turn) (m : Machine) : List Call :=
  match t.prepared with
  | (.ok program, shown) => (RunState.trace t.calls ⟨program, m, shown.console.input⟩).map (·.1)
  | (.error _, _) => []

/-- The machine after an entry. -/
def after (t : Turn) (m : Machine) : Machine :=
  (t.host.runEntry t.calls t.resolver t.verbose t.text m).2.1

end Turn

namespace Machine

/-- The machine after some entries. -/
def afterTurns (m : Machine) : List Turn → Machine
  | [] => m
  | t :: rest => (t.after m).afterTurns rest

/-- The calls that some entries make of a machine. -/
def madeIn (m : Machine) : List Turn → List Call
  | [] => []
  | t :: rest => t.made m ++ (t.after m).madeIn rest

end Machine

/-! ## One entry -/

namespace Turn

variable {known : Int → Prop} {t : Turn} {m : Machine} {program : Program} {shown : Host}

theorem canonical_resolver (t : Turn) : t.resolver.Canonical :=
  Resolver.canonical_ofTable? t.reachable

theorem executes_of_prepared (h : t.prepared = (.ok program, shown)) : t.Executes program.toNode :=
  ⟨(Host.listing_of_prepareEntry t.canonical_resolver h).1, program, shown, h⟩

/-- An entry that is refused leaves the machine as it was. -/
theorem after_of_error {fault : Fault} (h : t.prepared = (.error fault, shown)) :
    t.after m = m := by
  rw [after, Host.runEntry_of_error t.calls m h]

/-- Any other entry leaves the machine that its run comes to. -/
theorem after_of_ok (h : t.prepared = (.ok program, shown)) :
    let r : RunState := ⟨program, m, shown.console.input⟩
    t.after m = (r.after (r.trace t.calls)).machine := by
  intro r
  have hrun := RunState.runFor_eq_trace t.calls r ""
  have hentry : t.host.run (prepareEntry t.resolver t.verbose t.text) = (.ok program, shown) := h
  rw [after, Host.runEntry, hentry]
  show (shown.execute t.calls m program).2.2.1 = _
  rw [Host.execute, hrun]

/-- Only increments change the variable. -/
theorem var_after (t : Turn) (m : Machine) :
    (t.after m).var = m.var + (t.made m).count .increment := by
  cases h : t.prepared with
  | mk result shown =>
    cases result with
    | error fault =>
      rw [after_of_error h, made, h]
      exact (Int.add_zero _).symm
    | ok program =>
      rw [after_of_ok h, made, h]
      exact RunState.var_after_trace _ _

/-- An entry keeps to integers that are known if the literals of its program are. -/
theorem keeps_after (hm : m.Keeps known)
    (hknown : ∀ tree, t.Executes tree → ∀ x, .mk .integer (.int x) [] ∈ tree.walk → known x) :
    (t.after m).Keeps known := by
  cases h : t.prepared with
  | mk result shown =>
    cases result with
    | error fault => rwa [after_of_error h]
    | ok program =>
      rw [after_of_ok h]
      have hstart : RunState.Keeps known ⟨program, m, shown.console.input⟩ :=
        ⟨hm, fun x hx => hknown _ (executes_of_prepared h) x (mem_walk_toNode_iff.2 hx)⟩
      exact ((RunState.reaches_trace _ _).keeps hstart).machine

end Turn

/-! ## Entries one after the other -/

/-- An integer is a literal of a program that one of some entries executes. -/
def IsExecutedLiteral (turns : List Turn) (x : Int) : Prop :=
  ∃ t ∈ turns, ∃ tree, t.Executes tree ∧ .mk .integer (.int x) [] ∈ tree.walk

theorem Machine.var_afterTurns (turns : List Turn) (m : Machine) :
    (m.afterTurns turns).var = m.var + (m.madeIn turns).count .increment := by
  induction turns generalizing m with
  | nil => exact (Int.add_zero _).symm
  | cons t rest ih =>
    rw [afterTurns, ih, t.var_after, madeIn, List.count_append, Int.natCast_add, Int.add_assoc]

theorem Machine.Keeps.afterTurns {known : Int → Prop} {turns : List Turn} {m : Machine}
    (hm : m.Keeps known) (hknown : ∀ x, IsExecutedLiteral turns x → known x) :
    (m.afterTurns turns).Keeps known := by
  induction turns generalizing m with
  | nil => exact hm
  | cons t rest ih =>
    rw [Machine.afterTurns]
    refine ih (Turn.keeps_after hm ?_) ?_
    · exact fun tree htree x hx => hknown x ⟨t, List.mem_cons_self, tree, htree, hx⟩
    · rintro x ⟨u, hu, hx⟩
      exact hknown x ⟨u, List.mem_cons_of_mem t hu, hx⟩

/-- A literal of a program that is executed was read from a text. -/
theorem IsExecutedLiteral.isWritten {turns : List Turn} {x : Int} (h : IsExecutedLiteral turns x) :
    Integer.IsWritten x := by
  obtain ⟨t, -, tree, ⟨hparse, -⟩, hx⟩ := h
  obtain ⟨program, hfit, rfl⟩ :=
    (isWellFormed_of_parseText t.canonical_resolver hparse).exists_program
  exact (statementsFit_iff program).1 hfit x (mem_walk_toNode_iff.1 hx)

/-- Every integer that a machine keeps has an origin. Entries that are run on a fresh machine one after
the other, each as far as its calls go, bring the variable to the number of increments that were made,
and every member that is listed, for a finite set or a cofinite one, is a literal of a program that was
executed or a natural number up to the variable. So the members are finitely many and not negative, and
the machine can be shown while its variable is below the limit of decimal text. -/
theorem stored_integers_have_origins (turns : List Turn) :
    let m := Machine.fresh.afterTurns turns
    m.var = (Machine.fresh.madeIn turns).count .increment ∧
    (∀ x ∈ m.current.members, IsExecutedLiteral turns x ∨ 0 ≤ x ∧ x ≤ m.var) ∧
    {x | x ∈ m.current.members}.Finite ∧
    (∀ x ∈ m.current.members, 0 ≤ x) ∧
    (m.var < 10 ^ decimalDigitLimit → ∃ shown, m.shown = .ok shown) := by
  intro m
  have hkeeps : m.Keeps (IsExecutedLiteral turns) := Machine.keeps_fresh.afterTurns fun _ => id
  have hattained : m.Attained := Machine.attained_iff_keeps.2 (hkeeps.imp fun _ hx => hx.isWritten)
  refine ⟨?_, hkeeps.members, IntSet.finite_setOf_mem _, fun x hx => (hattained.members x hx).1,
    hattained.exists_shown⟩
  have hvar := Machine.fresh.var_afterTurns turns
  rwa [show Machine.fresh.var = 0 from rfl, Int.zero_add] at hvar

/-- A cofinite set that leaves out a literal of the first entry and what the variable was then. The
second entry is refused, and the third one is cut off before it reads. -/
theorem stored_integers_have_origins_cofinite :
    let turn (text : String) (calls : Nat) : Turn :=
      ⟨⟨⟨[]⟩, .ofInput "x"⟩, some .canonical, fun _ => AliasTable.reachable_of_mem_some_canonical,
        false, text, calls⟩
    let turns := [turn "*7 c inc ; *%" 9, turn "flip" 9, turn "|\x7b5, 7\x7d :: *7 ~" 3]
    let m := Machine.fresh.afterTurns turns
    m = ⟨⟨⟨[2, 7], by decide⟩, true⟩, 3, none⟩ ∧
      (IsExecutedLiteral turns 7 ∨ (0 : Int) ≤ 7 ∧ 7 ≤ m.var) ∧
      m.var < 10 ^ decimalDigitLimit ∧ ∃ shown, m.shown = .ok shown := by
  intro turn turns m
  have hmachine : m = ⟨⟨⟨[2, 7], by decide⟩, true⟩, 3, none⟩ := by decide +kernel +revert
  have hmember : 7 ∈ m.current.members := by
    rw [hmachine]
    decide
  have hlimit : m.var < 10 ^ decimalDigitLimit := by
    rw [hmachine]
    calc (3 : Int) < 10 ^ 1 := by decide
      _ ≤ 10 ^ decimalDigitLimit := pow_le_pow_right₀ (by decide) (by decide)
  obtain ⟨-, horigins, -, -, hshown⟩ := stored_integers_have_origins turns
  exact ⟨hmachine, horigins 7 hmember, hlimit, hshown hlimit⟩

end SetLang
