import SetLang.Program.Run
import SetLang.Proofs.Execution.SetSemantics
import SetLang.Proofs.IntSet.Denotation
import SetLang.Proofs.Program.Accepted

/-!
# Runs of the machine refine runs over sets

The machine keeps a finite or cofinite set, and a run over sets starts from the set that it denotes.
Both make the same calls with the same answers, and after every number of calls the machine denotes
the world of the other run. One step is done for each kind of statement; a run is an induction on the
number of calls.
-/

namespace SetLang

open scoped symmDiff

/-! ## Operations of the machine -/

namespace Machine

theorem denote_flip (m : Machine) (x : ℤ) :
    (m.flip x).current.denote = m.current.denote ∆ {x} := by
  have hsingle : (IntSet.of [x]).denote = {x} := by
    rw [IntSet.denote_of]
    simp
  ext y
  by_cases hx : m.current.contains x = true
  · have hmem := IntSet.mem_denote_iff_contains.2 hx
    rw [flip, if_pos hx, IntSet.denote_diff, hsingle, Set.mem_symmDiff]
    -- what is taken out was in the set
    by_cases hy : y = x
    · subst hy
      simp [hmem]
    · simp [hy]
  · have hmem := mt IntSet.mem_denote_iff_contains.1 hx
    rw [flip, if_neg hx, IntSet.denote_union, hsingle, Set.mem_symmDiff]
    by_cases hy : y = x
    · subst hy
      simp [hmem]
    · simp [hy]

theorem denote_apply (m : Machine) (o : SetOperator) (operand : IntSet) :
    (m.apply o operand).current.denote = o.combine m.current.denote operand.denote := by
  cases o with
  | union => exact IntSet.denote_union _ _
  | intersection => exact IntSet.denote_inter _ _
  | leftDifference => exact IntSet.denote_diff _ _
  | rightDifference => exact IntSet.denote_diff _ _

theorem denote_complement (m : Machine) : m.complement.current.denote = m.current.denoteᶜ :=
  IntSet.denote_compl _

/-- The machine answers a predicate as the sets stand to each other. -/
@[simp] theorem holds_eq_true_iff (m : Machine) (p : Predicate) (guard : IntSet) :
    m.holds p guard = true ↔ p.Relates m.current.denote guard.denote := by
  cases p with
  | subset => exact IntSet.subset_eq_true_iff
  | properSubset => exact IntSet.properSubset_eq_true_iff
  | notSubset =>
    rw [holds, Bool.not_eq_true', ← Bool.not_eq_true, IntSet.subset_eq_true_iff]
    rfl
  | superset => exact IntSet.superset_eq_true_iff
  | properSuperset => exact IntSet.properSuperset_eq_true_iff
  | notSuperset =>
    rw [holds, Bool.not_eq_true', ← Bool.not_eq_true, IntSet.superset_eq_true_iff]
    rfl
  | equal => exact IntSet.beq_eq_true_iff

@[simp] theorem holdsChar_eq_true_iff (m : Machine) (c : Char) :
    m.holdsChar c = true ↔ m.register = some c :=
  beq_iff_eq

end Machine

/-! ## Expressions -/

theorem Expr.denotes_iff {var x : ℤ} {e : Expr} : e.Denotes var x ↔ e.eval var = x := by
  constructor
  · intro h
    cases h <;> rfl
  · rintro rfl
    cases e with
    | literal n => exact .literal n
    | percent => exact .percent

theorem denote_evalSet (var : ℤ) (es : List Expr) :
    (evalSet var es).denote = exprSet var es := by
  ext x
  rw [evalSet, IntSet.denote_of, exprSet]
  simp [Expr.denotes_iff]

/-! ## Calls and states -/

/-- A call over the sets that its operands denote. -/
def Call.denote : Call → SetCall
  | .flip x => .flip x
  | .put c => .put c
  | .apply o operand => .apply o operand.denote
  | .complement => .complement
  | .increment => .increment
  | .read => .read
  | .holds p guard answer => .holds p guard.denote answer
  | .matches c answer => .matches c answer

/-- The world that a machine stands for, with what was written and the input that is left. -/
def Machine.world (m : Machine) (output input : List Char) : SetWorld :=
  ⟨m.current.denote, m.var, m.register, output, input⟩

namespace Machine

variable {output input : List Char}

theorem world_flip (m : Machine) (x : ℤ) : (m.flip x).world output input =
    { m.world output input with current := m.current.denote ∆ {x} } := by
  rw [world, denote_flip]
  rfl

theorem world_apply (m : Machine) (o : SetOperator) (es : List Expr) :
    (m.apply o (evalSet m.var es)).world output input =
      { m.world output input with
        current := o.combine m.current.denote (exprSet m.var es) } := by
  rw [world, denote_apply, denote_evalSet]
  rfl

theorem world_complement (m : Machine) : m.complement.world output input =
    { m.world output input with current := m.current.denoteᶜ } := by
  rw [world, denote_complement]
  rfl

end Machine

namespace RunState

/-- The state over sets that a run stands for, once it has written some text. -/
def denote (r : RunState) (output : List Char) : SetState :=
  ⟨r.todo, r.machine.world output r.input⟩

variable {r next : RunState} {call : Call} {output : List Char}

/-- Every call of the machine is an action of the first statement. -/
theorem exists_acts_of_step {s : Statement} {rest : List Statement} {m : Machine}
    {input : List Char} (h : step ⟨s :: rest, m, input⟩ = some (call, next)) :
    ∃ left, next.todo = left ++ rest ∧
      s.Acts (m.world output input) call.denote
        (next.machine.world (output ++ call.written) next.input) left := by
  cases s with
  | flip e =>
    obtain ⟨rfl, rfl⟩ := Prod.mk.inj (Option.some.inj h)
    refine ⟨[], rfl, ?_⟩
    show Statement.Acts _ _ _ ((m.flip (e.eval m.var)).world (output ++ []) input) []
    rw [List.append_nil, Machine.world_flip]
    exact .flip (Expr.denotes_iff.2 rfl)
  | put c =>
    obtain ⟨rfl, rfl⟩ := Prod.mk.inj (Option.some.inj h)
    exact ⟨[], rfl, .put⟩
  | apply o es =>
    obtain ⟨rfl, rfl⟩ := Prod.mk.inj (Option.some.inj h)
    refine ⟨[], rfl, ?_⟩
    show Statement.Acts _ _ (.apply o (evalSet m.var es).denote)
      ((m.apply o (evalSet m.var es)).world (output ++ []) input) []
    rw [List.append_nil, Machine.world_apply, denote_evalSet]
    exact .apply
  | complement =>
    obtain ⟨rfl, rfl⟩ := Prod.mk.inj (Option.some.inj h)
    refine ⟨[], rfl, ?_⟩
    show Statement.Acts _ _ _ (m.complement.world (output ++ []) input) []
    rw [List.append_nil, Machine.world_complement]
    exact .complement
  | increment =>
    obtain ⟨rfl, rfl⟩ := Prod.mk.inj (Option.some.inj h)
    refine ⟨[], rfl, ?_⟩
    show Statement.Acts _ _ _ (m.increment.world (output ++ []) input) []
    rw [List.append_nil]
    exact .increment
  | read =>
    obtain ⟨rfl, rfl⟩ := Prod.mk.inj (Option.some.inj h)
    refine ⟨[], rfl, ?_⟩
    show Statement.Acts _ _ _ ((m.read input).world (output ++ []) (input.drop 1)) []
    rw [List.append_nil]
    -- at the end of the input the register is emptied
    cases input with
    | nil => exact .readEnd rfl
    | cons c input => exact .readChar rfl
  | loop p es body =>
    obtain ⟨rfl, rfl⟩ := Prod.mk.inj (Option.some.inj h)
    have hrelates := m.holds_eq_true_iff p (evalSet m.var es)
    -- the guard is evaluated with the variable as it is now, on both sides
    show ∃ left, (if m.holds p (evalSet m.var es) then body ++ .loop p es body :: rest else rest) =
      left ++ rest ∧ Statement.Acts _ _
        (.holds p (evalSet m.var es).denote (m.holds p (evalSet m.var es)))
        (m.world (output ++ []) input) left
    rw [List.append_nil, denote_evalSet]
    rw [denote_evalSet] at hrelates
    cases hanswer : m.holds p (evalSet m.var es) with
    | true => exact ⟨body ++ [.loop p es body], by simp, .loopAgain (hrelates.1 hanswer)⟩
    | false =>
      rw [hanswer] at hrelates
      exact ⟨[], by simp, .loopOver fun hp => Bool.false_ne_true (hrelates.2 hp)⟩
  | test c body =>
    obtain ⟨rfl, rfl⟩ := Prod.mk.inj (Option.some.inj h)
    show ∃ left, (if m.holdsChar c then body ++ rest else rest) = left ++ rest ∧
      Statement.Acts _ _ (.matches c (m.holdsChar c)) (m.world (output ++ []) input) left
    rw [List.append_nil]
    have hregister := m.holdsChar_eq_true_iff c
    cases hanswer : m.holdsChar c with
    | true => exact ⟨body, by simp, .testPassed (hregister.1 hanswer)⟩
    | false =>
      rw [hanswer] at hregister
      exact ⟨[], by simp, .testFailed fun hc => Bool.false_ne_true (hregister.2 hc)⟩

/-- A run of the machine stands still only where nothing is left to be done. -/
theorem step_eq_none_iff : r.step = none ↔ r.todo = [] := by
  obtain ⟨todo, m, input⟩ := r
  cases todo with
  | nil => simp [step]
  | cons s rest => cases s <;> simp [step]

/-- Every step of the machine is a step over sets. -/
theorem step_denote (h : r.step = some (call, next)) :
    (r.denote output).Step call.denote (next.denote (output ++ call.written)) := by
  obtain ⟨todo, m, input⟩ := r
  cases todo with
  | nil => cases h
  | cons s rest =>
    obtain ⟨left, htodo, hacts⟩ := exists_acts_of_step h
    have hdenote : next.denote (output ++ call.written) =
        ⟨left ++ rest, next.machine.world (output ++ call.written) next.input⟩ := by
      rw [denote, htodo]
    rw [hdenote]
    exact .act hacts

/-- Every step over sets is a step of the machine. -/
theorem exists_step_of_denote {c : SetCall} {σ : SetState} (h : (r.denote output).Step c σ) :
    ∃ call next, r.step = some (call, next) ∧ c = call.denote ∧
      σ = next.denote (output ++ call.written) := by
  cases hstep : r.step with
  | none =>
    rw [denote, step_eq_none_iff.1 hstep] at h
    cases h
  | some result =>
    obtain ⟨call, next⟩ := result
    -- the step over sets is the only one, so it is that of the machine
    obtain ⟨rfl, rfl⟩ := h.unique (step_denote hstep)
    exact ⟨call, next, rfl, rfl, rfl⟩

/-- The machine has halted exactly where no step over sets is possible. -/
theorem halted_iff_denote : r.halted = true ↔ (r.denote output).Halted := by
  rw [halted, List.isEmpty_iff, ← step_eq_none_iff]
  constructor
  · intro hstep c σ h
    obtain ⟨call, next, hnext, -⟩ := exists_step_of_denote h
    rw [hstep] at hnext
    cases hnext
  · intro hhalted
    cases hstep : r.step with
    | none => rfl
    | some result => exact absurd (step_denote hstep) (hhalted _ _)

/-! ## Runs -/

@[simp] theorem after_cons (r next : RunState) (call : Call) (rest : List (Call × RunState)) :
    r.after ((call, next) :: rest) = next.after rest := by
  rw [after, after, List.getLast?_cons]
  cases rest.getLast? <;> rfl

/-- Running for some calls is what the trace of those calls tells. -/
theorem runFor_eq_trace (n : Nat) (r : RunState) (out : String) :
    runFor n r out = (n - (r.trace n).length, r.after (r.trace n), out ++ written (r.trace n)) := by
  induction n generalizing r out with
  | zero => simp [runFor, trace, after, written]
  | succ n ih =>
    rw [runFor, trace]
    cases hstep : r.step with
    | none => simp [after, written]
    | some result =>
      obtain ⟨call, next⟩ := result
      -- a call writes one character or none
      have hpush : call.written.foldl String.push out = out ++ String.ofList call.written := by
        cases call <;> simp [Call.written]
      simp only [ih, after_cons, hpush, List.length_cons, Nat.add_sub_add_right]
      simp [written, String.append_assoc]

/-- The calls of a trace are steps over sets, to what the last state denotes. -/
theorem steps_trace (n : Nat) (r : RunState) (output : List Char) :
    (r.denote output).Steps ((r.trace n).map fun c => c.1.denote)
      ((r.after (r.trace n)).denote (output ++ (r.trace n).flatMap fun c => c.1.written)) := by
  induction n generalizing r output with
  | zero =>
    rw [trace, List.flatMap_nil, List.append_nil]
    exact .refl _
  | succ n ih =>
    rw [trace]
    cases hstep : r.step with
    | none =>
      simp only [List.flatMap_nil, List.append_nil]
      exact .refl _
    | some result =>
      obtain ⟨call, next⟩ := result
      simp only [List.map_cons, List.flatMap_cons, after_cons]
      rw [← List.append_assoc]
      exact .head (step_denote hstep) (ih next _)

/-- Steps over sets are the calls of a trace, and they end where the last state denotes. -/
theorem trace_of_steps {cs : List SetCall} {σ : SetState} (h : (r.denote output).Steps cs σ) :
    (r.trace cs.length).length = cs.length ∧
      cs = (r.trace cs.length).map (fun c => c.1.denote) ∧
      σ = (r.after (r.trace cs.length)).denote
        (output ++ (r.trace cs.length).flatMap fun c => c.1.written) := by
  induction cs generalizing r output with
  | nil =>
    cases h
    refine ⟨rfl, rfl, ?_⟩
    rw [List.length_nil, trace, List.flatMap_nil, List.append_nil]
    rfl
  | cons c cs ih =>
    cases h with
    | head hstep hrest =>
      obtain ⟨call, next, hnext, rfl, rfl⟩ := exists_step_of_denote hstep
      obtain ⟨hlength, hcalls, hend⟩ := ih hrest
      rw [List.length_cons, trace, hnext]
      simp only [List.map_cons, List.length_cons, List.flatMap_cons, after_cons]
      rw [← List.append_assoc]
      exact ⟨by rw [hlength], by rw [← hcalls], hend⟩

/-- The runs over sets with a given number of calls are those that the machine makes. -/
theorem steps_denote_iff {n : Nat} {cs : List SetCall} {σ : SetState} :
    cs.length = n ∧ (r.denote []).Steps cs σ ↔
      (r.trace n).length = n ∧ cs = (r.trace n).map (fun c => c.1.denote) ∧
        σ = (r.after (r.trace n)).denote (written (r.trace n)).toList := by
  rw [written, String.toList_ofList]
  constructor
  · rintro ⟨rfl, h⟩
    exact trace_of_steps h
  · rintro ⟨hlength, rfl, rfl⟩
    exact ⟨by rw [List.length_map, hlength], steps_trace n r []⟩

/-- The machine comes to a halt if and only if the run over sets does. -/
theorem exists_halted_iff :
    (∃ n, (r.after (r.trace n)).halted = true) ↔
      ∃ cs σ, (r.denote output).Steps cs σ ∧ σ.Halted := by
  constructor
  · rintro ⟨n, h⟩
    exact ⟨_, _, steps_trace n r output, halted_iff_denote.1 h⟩
  · rintro ⟨cs, σ, hsteps, hhalted⟩
    obtain ⟨-, -, rfl⟩ := trace_of_steps hsteps
    exact ⟨cs.length, halted_iff_denote.2 hhalted⟩

end RunState

/-! ## Accepted texts -/

/-- An accepted text is a program, and from every machine and every input its run refines the run
over sets that starts from the set denoted. For every number of calls the runs over sets are those
that the machine makes, with the same answers, and they end in the world that the machine denotes
with what it wrote and left of the input; and one run halts if and only if the other does. -/
theorem accepted_run_refines_sets {table : AliasTable} (htable : table.Reachable)
    {text : List Char} {tree : Node} (hparse : parseText table.kind? text = .ok tree)
    (m : Machine) (input : List Char) :
    ∃ program : Program, Program.ofTree tree = .ok program ∧ tree = program.toNode ∧
      let r : RunState := ⟨program, m, input⟩
      let σ : SetState := ⟨program, ⟨m.current.denote, m.var, m.register, [], input⟩⟩
      (∀ n, r.runFor n "" =
        (n - (r.trace n).length, r.after (r.trace n), RunState.written (r.trace n))) ∧
      (∀ n cs σ', cs.length = n ∧ σ.Steps cs σ' ↔
        let calls := r.trace n
        let last := r.after calls
        calls.length = n ∧ cs = calls.map (fun c => c.1.denote) ∧
          σ' = ⟨last.todo, ⟨last.machine.current.denote, last.machine.var, last.machine.register,
            (RunState.written calls).toList, last.input⟩⟩) ∧
      ((∃ n, (r.after (r.trace n)).halted = true) ↔ ∃ cs σ', σ.Steps cs σ' ∧ σ'.Halted) := by
  obtain ⟨program, rfl⟩ := exists_program_of_parseText htable.canonical_kind? hparse
  refine ⟨program, program.ofTree_toNode, rfl, ?_, ?_, ?_⟩
  · intro n
    have hrun := RunState.runFor_eq_trace n ⟨program, m, input⟩ ""
    rwa [String.empty_append] at hrun
  · intro n cs σ'
    exact RunState.steps_denote_iff (r := ⟨program, m, input⟩)
  · exact RunState.exists_halted_iff (r := ⟨program, m, input⟩)

/-- A loop that complements the set it is guarded by, and stops when the set has changed. -/
theorem accepted_run_refines_sets_complement :
    let program : Program :=
      [.flip .percent, .loop .equal [.literal 0] [.complement, .increment, .read]]
    AliasTable.Reachable .empty ∧
      parseText AliasTable.empty.kind? "*%=\x7b0\x7d[c;~]".toList = .ok program.toNode ∧
      ∃ cs σ', cs.length = 6 ∧
        SetState.Steps ⟨program, ⟨Machine.fresh.current.denote, 0, none, [], ['a']⟩⟩ cs σ' ∧
        σ'.world.current = (IntSet.of [0]).denoteᶜ ∧ σ'.world.register = some 'a' := by
  intro program
  have hparse : parseText AliasTable.empty.kind? "*%=\x7b0\x7d[c;~]".toList =
      .ok program.toNode := by rfl
  obtain ⟨program', -, htree, -, hsteps, -⟩ :=
    accepted_run_refines_sets .empty hparse .fresh ['a']
  obtain rfl := Program.toNode_injective htree
  obtain ⟨hlength, hrun⟩ := (hsteps 6 _ _).2 ⟨rfl, rfl, rfl⟩
  refine ⟨.empty, hparse, _, _, hlength, hrun, ?_, rfl⟩
  exact IntSet.denote_compl (.of [0])

end SetLang
