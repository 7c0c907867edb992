import SetLang.Proofs.Execution.Refinement

/-!
# Runs one after the other

What is to be done later has no part in the next call. So a run with more statements behind is the
run without them, and then a run of the rest from where the first one came to: on the machine as it
is then, and on the input that is left. A run that halts makes no use of the calls it is allowed
besides.
-/

namespace SetLang.RunState

variable {r r' next : RunState} {call : Call} {out out' : List Char} {machine : Machine}
  {input : List Char}

/-- A run with more statements behind those to be done. -/
def andThen (r : RunState) (more : List Statement) : RunState :=
  { r with todo := r.todo ++ more }

/-- The next call is the same with more statements behind. -/
theorem step_andThen (h : r.step = some (call, next)) (more : List Statement) :
    (r.andThen more).step = some (call, next.andThen more) := by
  obtain ⟨todo, m, input⟩ := r
  cases todo with
  | nil => cases h
  | cons s rest =>
    cases s with
    | loop p es body =>
      obtain ⟨rfl, rfl⟩ := Prod.mk.inj (Option.some.inj h)
      have htodo : (if m.holds p (evalSet m.var es) then body ++ .loop p es body :: (rest ++ more)
          else rest ++ more) =
          (if m.holds p (evalSet m.var es) then body ++ .loop p es body :: rest else rest) ++ more := by
        split <;> simp
      exact congrArg (fun todo => some (_, RunState.mk todo m input)) htodo
    | test c body =>
      obtain ⟨rfl, rfl⟩ := Prod.mk.inj (Option.some.inj h)
      have htodo : (if m.holdsChar c then body ++ (rest ++ more) else rest ++ more) =
          (if m.holdsChar c then body ++ rest else rest) ++ more := by
        split <;> simp
      exact congrArg (fun todo => some (_, RunState.mk todo m input)) htodo
    | _ =>
      obtain ⟨rfl, rfl⟩ := Prod.mk.inj (Option.some.inj h)
      rfl

/-- A run comes to another state, and writes a text on the way. -/
inductive Reaches : RunState → List Char → RunState → Prop where
  | refl (r : RunState) : Reaches r [] r
  | head {r next r' : RunState} {call : Call} {out : List Char} :
      r.step = some (call, next) → Reaches next out r' → Reaches r (call.written ++ out) r'

/-- A run comes to its end: what it writes, the machine there, and the input that is left. -/
def Halts (r : RunState) (out : List Char) (machine : Machine) (input : List Char) : Prop :=
  r.Reaches out ⟨[], machine, input⟩

namespace Reaches

theorem trans {r'' : RunState} (h : r.Reaches out r') (h' : r'.Reaches out' r'') :
    r.Reaches (out ++ out') r'' := by
  induction h with
  | refl => exact h'
  | head hstep _ ih =>
    rw [List.append_assoc]
    exact .head hstep (ih h')

theorem andThen (h : r.Reaches out r') (more : List Statement) :
    (r.andThen more).Reaches out (r'.andThen more) := by
  induction h with
  | refl => exact .refl _
  | head hstep _ ih => exact .head (step_andThen hstep more) ih

end Reaches

/-- A run halts with more statements behind exactly if it halts and the rest does so after it. -/
theorem halts_andThen_iff {more : List Statement} :
    (r.andThen more).Halts out machine input ↔
      ∃ out₁ out₂ middle left, r.Halts out₁ middle left ∧
        Halts ⟨more, middle, left⟩ out₂ machine input ∧ out = out₁ ++ out₂ := by
  constructor
  · intro h
    unfold Halts at h
    generalize hstart : r.andThen more = start at h
    generalize hend : (⟨[], machine, input⟩ : RunState) = last at h
    induction h generalizing r with
    | refl =>
      -- nothing is left to be done at all
      obtain ⟨todo, m, left⟩ := r
      obtain ⟨htodo, rfl, rfl⟩ := RunState.mk.inj (hstart.trans hend.symm)
      obtain ⟨rfl, rfl⟩ := List.append_eq_nil_iff.1 htodo
      exact ⟨[], [], m, left, .refl _, .refl _, rfl⟩
    | @head start later last call out hstep hrest ih =>
      subst hstart
      cases hr : r.step with
      | none =>
        -- the first run has come to its end, and what is left is the second one
        obtain ⟨todo, m, left⟩ := r
        obtain rfl : todo = [] := step_eq_none_iff.1 hr
        subst hend
        exact ⟨[], _, m, left, .refl _, .head hstep hrest, rfl⟩
      | some result =>
        obtain ⟨call', next⟩ := result
        obtain ⟨rfl, rfl⟩ := Prod.mk.inj (Option.some.inj (hstep.symm.trans (step_andThen hr more)))
        obtain ⟨out₁, out₂, middle, left, h₁, h₂, rfl⟩ := ih rfl hend
        exact ⟨_, out₂, middle, left, .head hr h₁, h₂, (List.append_assoc _ _ _).symm⟩
  · rintro ⟨out₁, out₂, middle, left, h₁, h₂, rfl⟩
    exact (h₁.andThen more).trans h₂

/-! ## Runs and traces -/

theorem reaches_trace (calls : Nat) (r : RunState) :
    r.Reaches ((r.trace calls).flatMap fun c => c.1.written) (r.after (r.trace calls)) := by
  induction calls generalizing r with
  | zero => exact .refl r
  | succ calls ih =>
    rw [trace]
    cases hstep : r.step with
    | none => exact .refl r
    | some result =>
      obtain ⟨call, next⟩ := result
      simp only [List.flatMap_cons, after_cons]
      exact .head hstep (ih next)

theorem Reaches.exists_trace (h : r.Reaches out r') :
    ∃ calls, (r.trace calls).flatMap (fun c => c.1.written) = out ∧ r.after (r.trace calls) = r' := by
  induction h with
  | refl r => exact ⟨0, rfl, rfl⟩
  | head hstep _ ih =>
    obtain ⟨calls, hout, hafter⟩ := ih
    refine ⟨calls + 1, ?_, ?_⟩
    · rw [trace, hstep]
      simp only [List.flatMap_cons, hout]
    · rw [trace, hstep]
      simp only [after_cons, hafter]

/-! ## Calls that are left, and input -/

theorem runFor_of_halted (h : r.halted = true) (calls : Nat) (out : String) :
    runFor calls r out = (calls, r, out) := by
  cases calls with
  | zero => rfl
  | succ calls => rw [runFor, step_eq_none_iff.2 (List.isEmpty_iff.1 h)]

/-- A run that halts leaves the calls that it may make besides. -/
theorem runFor_add {calls left : Nat} {last : RunState} {out text : String}
    (h : runFor calls r out = (left, last, text)) (hhalted : last.halted = true) (more : Nat) :
    runFor (calls + more) r out = (left + more, last, text) := by
  induction calls generalizing r out with
  | zero =>
    obtain ⟨rfl, rfl, rfl⟩ : 0 = left ∧ r = last ∧ out = text := by simpa [runFor] using h
    exact runFor_of_halted hhalted _ _
  | succ calls ih =>
    rw [Nat.add_right_comm, runFor]
    rw [runFor] at h
    cases hstep : r.step with
    | none =>
      rw [hstep] at h
      simp only [Prod.mk.injEq] at h
      obtain ⟨rfl, rfl, rfl⟩ := h
      rw [Nat.add_right_comm]
    | some result =>
      rw [hstep] at h
      exact ih h

theorem input_length_le_of_step (h : r.step = some (call, next)) :
    next.input.length ≤ r.input.length := by
  obtain ⟨todo, m, input⟩ := r
  cases todo with
  | nil => cases h
  | cons s rest =>
    cases s with
    | read =>
      obtain ⟨rfl, rfl⟩ := Prod.mk.inj (Option.some.inj h)
      exact Nat.le_trans (Nat.le_of_eq List.length_drop) (Nat.sub_le _ _)
    | _ =>
      obtain ⟨rfl, rfl⟩ := Prod.mk.inj (Option.some.inj h)
      exact Nat.le_refl _

theorem Reaches.input_length_le (h : r.Reaches out r') : r'.input.length ≤ r.input.length := by
  induction h with
  | refl => exact Nat.le_refl _
  | head hstep _ ih => exact Nat.le_trans ih (input_length_le_of_step hstep)

end SetLang.RunState
