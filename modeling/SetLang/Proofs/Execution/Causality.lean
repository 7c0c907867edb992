import SetLang.Proofs.Execution.Refinement
import Mathlib.Algebra.Order.Ring.Nat

/-!
# Input causality

A run learns of its input by reading it, one character at a time. So two runs whose inputs agree on
their first characters go in lockstep until they read past those: they make the same calls with the
same answers, pass the same machines and write the same text. A step keeps two states alike for the
characters that are still to be read; a run is an induction on the number of calls.
-/

namespace SetLang

/-- The number of characters that a call asks of the input. -/
def Call.reads : Call → Nat
  | .read => 1
  | _ => 0

namespace RunState

variable {k : Nat} {r r' next : RunState} {call : Call} {calls calls' : List (Call × RunState)}

/-- The number of reads among some calls. -/
def reads (calls : List (Call × RunState)) : Nat :=
  (calls.map fun c => c.1.reads).sum

/-- The calls up to, but not including, the first read past a number of them. -/
def upToRead : Nat → List (Call × RunState) → List (Call × RunState)
  | _, [] => []
  | k, (call, next) :: calls =>
    if call.reads ≤ k then (call, next) :: upToRead (k - call.reads) calls else []

/-- What some calls do: each with its arguments and its answer, what is to be done after it, and the
machine then. The input that is left is not among it. -/
def observed (calls : List (Call × RunState)) : List (Call × List Statement × Machine) :=
  calls.map fun c => (c.1, c.2.todo, c.2.machine)

/-! ## Calls up to a read -/

@[simp] theorem reads_cons : reads ((call, next) :: calls) = call.reads + reads calls :=
  List.sum_cons

theorem upToRead_cons : upToRead k ((call, next) :: calls) =
    if call.reads ≤ k then (call, next) :: upToRead (k - call.reads) calls else [] :=
  rfl

theorem upToRead_eq_self (h : reads calls ≤ k) : upToRead k calls = calls := by
  induction calls generalizing k with
  | nil => rfl
  | cons c calls ih =>
    rw [reads_cons] at h
    rw [upToRead_cons, if_pos (by omega), ih (by omega)]

theorem upToRead_append_read {rest : List (Call × RunState)} (h : reads calls = k) :
    upToRead k (calls ++ (.read, next) :: rest) = calls := by
  induction calls generalizing k with
  | nil =>
    subst h
    rfl
  | cons c calls ih =>
    rw [reads_cons] at h
    rw [List.cons_append, upToRead_cons, if_pos (by omega), ih (by omega)]

/-- Calls with more reads than a number go on with one where they are cut off. -/
theorem exists_append_read (h : k < reads calls) :
    ∃ next rest, calls = upToRead k calls ++ (.read, next) :: rest := by
  induction calls generalizing k with
  | nil => exact absurd h (Nat.not_lt_zero k)
  | cons c calls ih =>
    obtain ⟨call, next⟩ := c
    rw [reads_cons] at h
    by_cases hk : call.reads ≤ k
    · have hrest : k - call.reads < reads calls := by omega
      obtain ⟨last, rest, hcalls⟩ := ih hrest
      refine ⟨last, rest, ?_⟩
      rw [upToRead_cons, if_pos hk, List.cons_append, ← hcalls]
    · -- only a read asks for more than nothing
      obtain rfl : call = .read := by
        cases call with
        | read => rfl
        | _ => exact absurd (Nat.zero_le k) hk
      exact ⟨next, calls, by rw [upToRead_cons, if_neg hk, List.nil_append]⟩

theorem reads_append_read {rest : List (Call × RunState)} :
    reads calls < reads (calls ++ (.read, next) :: rest) := by
  simp only [reads, List.map_append, List.map_cons, List.sum_append, List.sum_cons, Call.reads]
  omega

/-! ## What is observed -/

@[simp] theorem observed_cons :
    observed ((call, next) :: calls) = (call, next.todo, next.machine) :: observed calls :=
  rfl

theorem written_eq_of_observed (h : observed calls = observed calls') :
    written calls = written calls' := by
  have hwritten (cs : List (Call × RunState)) :
      cs.flatMap (fun c => c.1.written) = (observed cs).flatMap fun o => o.1.written := by
    rw [observed, List.flatMap_map]
  rw [written, written, hwritten, hwritten, h]

theorem after_eq_of_observed (h : observed calls = observed calls') (htodo : r.todo = r'.todo)
    (hmachine : r.machine = r'.machine) :
    (r.after calls).todo = (r'.after calls').todo ∧
      (r.after calls).machine = (r'.after calls').machine := by
  have hlast := congrArg List.getLast? h
  rw [observed, observed, List.getLast?_map, List.getLast?_map] at hlast
  rw [after, after]
  cases hc : calls.getLast? with
  | none =>
    rw [hc] at hlast
    rw [Option.map_eq_none_iff.1 hlast.symm]
    exact ⟨htodo, hmachine⟩
  | some c =>
    rw [hc] at hlast
    obtain ⟨c', hc', heq⟩ := Option.map_eq_some_iff.1 hlast.symm
    rw [hc']
    exact ⟨(congrArg (·.2.1) heq).symm, (congrArg (·.2.2) heq).symm⟩

/-! ## Lockstep -/

/-- Two states that differ at most behind the first characters of their inputs. -/
structure Alike (k : Nat) (r r' : RunState) : Prop where
  todo_eq : r.todo = r'.todo
  machine_eq : r.machine = r'.machine
  input_eq : r.input.take k = r'.input.take k

namespace Alike

theorem step_eq_none (h : Alike k r r') (hstep : r.step = none) : r'.step = none := by
  rw [step_eq_none_iff] at hstep ⊢
  rw [← h.todo_eq, hstep]

/-- The next call is the same, and the states after it are alike for the characters that are left
of those agreed on. -/
theorem exists_step (h : Alike k r r') (hstep : r.step = some (call, next)) :
    ∃ next', r'.step = some (call, next') ∧
      (call.reads ≤ k → Alike (k - call.reads) next next') := by
  obtain ⟨todo, m, input⟩ := r
  obtain ⟨todo', m', input'⟩ := r'
  obtain rfl : todo = todo' := h.todo_eq
  obtain rfl : m = m' := h.machine_eq
  have hinput : input.take k = input'.take k := h.input_eq
  cases todo with
  | nil => cases hstep
  | cons s rest =>
    cases s with
    | read =>
      obtain ⟨rfl, rfl⟩ := Prod.mk.inj (Option.some.inj hstep)
      refine ⟨_, rfl, fun hk => ⟨rfl, ?_, ?_⟩⟩
      · -- one of the characters agreed on, or the end of the input on both sides
        have hhead : input.head? = input'.head? := by
          have htake := congrArg List.head? hinput
          rwa [List.head?_take, List.head?_take, if_neg (Nat.ne_of_gt hk),
            if_neg (Nat.ne_of_gt hk)] at htake
        exact congrArg (fun c => { m with register := c }) hhead
      · show (input.drop 1).take (k - 1) = (input'.drop 1).take (k - 1)
        rw [← List.drop_take, ← List.drop_take, hinput]
    | _ =>
      -- the other statements leave the input alone, and do not look at it
      obtain ⟨rfl, rfl⟩ := Prod.mk.inj (Option.some.inj hstep)
      exact ⟨_, rfl, fun _ => ⟨rfl, rfl, hinput⟩⟩

/-- Up to the first read past the characters agreed on, two runs do the same; and both come to that
read, or none of them does. -/
theorem lockstep (h : Alike k r r') (n : Nat) :
    observed (upToRead k (r.trace n)) = observed (upToRead k (r'.trace n)) ∧
      (reads (r.trace n) ≤ k ↔ reads (r'.trace n) ≤ k) := by
  induction n generalizing k r r' with
  | zero => exact ⟨rfl, Iff.rfl⟩
  | succ n ih =>
    rw [trace, trace]
    cases hstep : r.step with
    | none =>
      rw [h.step_eq_none hstep]
      exact ⟨rfl, Iff.rfl⟩
    | some result =>
      obtain ⟨call, next⟩ := result
      obtain ⟨next', hstep', hnext⟩ := h.exists_step hstep
      simp only [hstep', upToRead_cons, reads_cons]
      by_cases hk : call.reads ≤ k
      · have halike := hnext hk
        obtain ⟨hcalls, hreads⟩ := ih halike
        exact ⟨by simp [hk, halike.todo_eq, halike.machine_eq, hcalls], by omega⟩
      · rw [if_neg hk, if_neg hk]
        exact ⟨rfl, by omega⟩

/-- Runs that read no more than the characters agreed on do the same throughout. -/
theorem observed_trace (h : Alike k r r') {n : Nat} (hreads : reads (r.trace n) ≤ k) :
    observed (r.trace n) = observed (r'.trace n) := by
  obtain ⟨hobserved, hiff⟩ := h.lockstep n
  rwa [upToRead_eq_self hreads, upToRead_eq_self (hiff.1 hreads)] at hobserved

/-- Where one run reads past the characters agreed on, the other one does, after the same calls. -/
theorem exists_read (h : Alike k r r') {n : Nat} {rest : List (Call × RunState)}
    (htrace : r.trace n = calls ++ (.read, next) :: rest) (hreads : reads calls = k) :
    ∃ calls' next' rest', r'.trace n = calls' ++ (.read, next') :: rest' ∧
      observed calls = observed calls' := by
  obtain ⟨hobserved, hiff⟩ := h.lockstep n
  rw [htrace, upToRead_append_read hreads] at hobserved
  have hlt : k < reads (r'.trace n) := by
    have hread : reads calls < reads (r.trace n) := htrace ▸ reads_append_read
    omega
  obtain ⟨next', rest', htrace'⟩ := exists_append_read hlt
  exact ⟨_, next', rest', htrace', hobserved⟩

end Alike
end RunState

/-! ## Accepted texts -/

open RunState

/-- An accepted text is a program, and its runs from one machine on two inputs that agree on their
first characters do the same until they read past those: the same calls with the same answers, the
same statements to be done and the same machine after each of them, and the same text written. Both
come to that read or none of them does; where one reads past the characters agreed on, the other one
does so after the same calls and the same text. Without such a read the runs agree on what they come
to. -/
theorem accepted_run_is_causal {table : AliasTable} (htable : table.Reachable) {text : List Char}
    {tree : Node} (hparse : parseText table.kind? text = .ok tree) (m : Machine) {k : Nat}
    {input input' : List Char} (hinput : input.take k = input'.take k) :
    ∃ program : Program, Program.ofTree tree = .ok program ∧ tree = program.toNode ∧
      let r : RunState := ⟨program, m, input⟩
      let r' : RunState := ⟨program, m, input'⟩
      ∀ n,
        (observed (upToRead k (r.trace n)) = observed (upToRead k (r'.trace n)) ∧
          written (upToRead k (r.trace n)) = written (upToRead k (r'.trace n))) ∧
        (reads (r.trace n) ≤ k ↔ reads (r'.trace n) ≤ k) ∧
        (∀ calls next rest, r.trace n = calls ++ (.read, next) :: rest → reads calls = k →
          ∃ calls' next' rest', r'.trace n = calls' ++ (.read, next') :: rest' ∧
            observed calls = observed calls' ∧ written calls = written calls') ∧
        (reads (r.trace n) ≤ k →
          observed (r.trace n) = observed (r'.trace n) ∧
          ∃ left last last' out, r.runFor n "" = (left, last, out) ∧
            r'.runFor n "" = (left, last', out) ∧ last.todo = last'.todo ∧
            last.machine = last'.machine ∧ last.halted = last'.halted) := by
  obtain ⟨program, rfl⟩ := exists_program_of_parseText htable.canonical_kind? hparse
  refine ⟨program, program.ofTree_toNode, rfl, ?_⟩
  intro r r' n
  have halike : Alike k r r' := ⟨rfl, rfl, hinput⟩
  obtain ⟨hobserved, hiff⟩ := halike.lockstep n
  refine ⟨⟨hobserved, written_eq_of_observed hobserved⟩, hiff, ?_, ?_⟩
  · intro calls next rest htrace hreads
    obtain ⟨calls', next', rest', htrace', hcalls⟩ := halike.exists_read htrace hreads
    exact ⟨calls', next', rest', htrace', hcalls, written_eq_of_observed hcalls⟩
  · intro hreads
    have hcalls := halike.observed_trace hreads
    obtain ⟨htodo, hmachine⟩ := after_eq_of_observed hcalls halike.todo_eq halike.machine_eq
    have hlength : (r.trace n).length = (r'.trace n).length := by
      have := congrArg List.length hcalls
      rwa [observed, observed, List.length_map, List.length_map] at this
    refine ⟨hcalls, _, _, _, _, runFor_eq_trace n r "", ?_, htodo, hmachine, ?_⟩
    · rw [runFor_eq_trace, hlength, written_eq_of_observed hcalls]
    · rw [halted, halted, htodo]

/-- A question that is put after the first character is known, and answered with the second one. -/
theorem accepted_run_is_causal_question :
    let program : Program := [.read, .put '?', .read, .test 'b' [.put '!']]
    let calls (input : List Char) := RunState.trace 5 ⟨program, .fresh, input⟩
    AliasTable.Reachable .empty ∧
      parseText AliasTable.empty.kind? "~\"?\"~'b'/\"!\"\\".toList = .ok program.toNode ∧
      ['a', 'b'].take 1 = ['a', 'c'].take 1 ∧
      written (calls ['a', 'b']) = "?!" ∧ written (calls ['a', 'c']) = "?" ∧
      ∃ asked next rest, calls ['a', 'c'] = asked ++ (.read, next) :: rest ∧
        observed ((calls ['a', 'b']).take 2) = observed asked ∧
        written asked = "?" := by
  intro program calls
  have hparse : parseText AliasTable.empty.kind? "~\"?\"~'b'/\"!\"\\".toList =
      .ok program.toNode := by rfl
  have hinput : ['a', 'b'].take 1 = ['a', 'c'].take 1 := rfl
  obtain ⟨program', -, htree, hruns⟩ := accepted_run_is_causal .empty hparse .fresh hinput
  obtain rfl := Program.toNode_injective htree
  obtain ⟨-, -, hread, -⟩ := hruns 5
  obtain ⟨asked, next, rest, hasked, hobserved, hwritten⟩ :=
    hread ((calls ['a', 'b']).take 2) _ _ rfl rfl
  exact ⟨.empty, hparse, hinput, rfl, rfl, asked, next, rest, hasked, hobserved, hwritten.symm⟩

end SetLang
