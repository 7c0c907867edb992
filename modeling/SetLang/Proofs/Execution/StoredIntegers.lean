import SetLang.Proofs.Execution.Sequence
import SetLang.Proofs.Program.Literals
import Mathlib.Algebra.Order.Ring.Int

/-!
# The integers that a machine keeps

A program writes integers, and it counts. So the members that a machine lists are literals of its
programs and natural numbers up to the variable, and the variable is the number of increments. This
holds at the start, it is kept by every call, and so by every run. Since the literals of a text are
natural numbers that fit decimal text, only a variable past the limit of decimal text keeps a machine
from being shown.
-/

namespace SetLang

/-- An integer that is known, or that was counted on the way to the variable. -/
def Integer.Kept (known : Int → Prop) (var x : Int) : Prop :=
  known x ∨ 0 ≤ x ∧ x ≤ var

/-- An integer that a program can have come to: a natural number that fits decimal text or is at most
the variable. -/
def Integer.Attained (var x : Int) : Prop :=
  0 ≤ x ∧ (Integer.FitsDecimal x ∨ x ≤ var)

/-- What may be attained is what is kept when the literals of the programs are known. -/
theorem Integer.attained_iff_kept {var x : Int} :
    Integer.Attained var x ↔ Integer.Kept Integer.IsWritten var x :=
  and_or_left

/-- An expression whose literal is known has a value that may be kept. -/
theorem Expr.kept_eval {known : Int → Prop} {var : Int} (hvar : 0 ≤ var) {e : Expr}
    (he : ∀ n, e = .literal n → known n) : Integer.Kept known var (e.eval var) := by
  cases e with
  | literal n => exact .inl (he n rfl)
  | percent => exact .inr ⟨hvar, Int.le_refl var⟩

/-! ## Members -/

namespace IntSet

variable {x : Int} {s t : IntSet}

@[simp] theorem mem_members_of {elements : List Int} : x ∈ (of elements).members ↔ x ∈ elements :=
  Ascending.mem_ofList

/-- The members of a union come from one of the two sets. -/
theorem mem_members_of_union (h : x ∈ (s.union t).members) : x ∈ s.members ∨ x ∈ t.members := by
  obtain ⟨ms, cs⟩ := s
  obtain ⟨mt, ct⟩ := t
  cases cs <;> cases ct
  · exact Ascending.mem_union.1 h
  · exact .inr (Ascending.mem_diff.1 h).1
  · exact .inl (Ascending.mem_diff.1 h).1
  · exact .inl (Ascending.mem_inter.1 h).1

/-- The members of an intersection come from one of the two sets. -/
theorem mem_members_of_inter (h : x ∈ (s.inter t).members) : x ∈ s.members ∨ x ∈ t.members := by
  obtain ⟨ms, cs⟩ := s
  obtain ⟨mt, ct⟩ := t
  cases cs <;> cases ct
  · exact .inl (Ascending.mem_inter.1 h).1
  · exact .inl (Ascending.mem_diff.1 h).1
  · exact .inr (Ascending.mem_diff.1 h).1
  · exact Ascending.mem_union.1 h

/-- A difference lists no other members, since a complement lists those of its set. -/
theorem mem_members_of_diff (h : x ∈ (s.diff t).members) : x ∈ s.members ∨ x ∈ t.members :=
  mem_members_of_inter (t := t.compl) h

end IntSet

/-! ## Calls -/

namespace Machine

/-- The variable is a natural number, and a machine keeps no other members than known integers and
those that it has counted. -/
structure Keeps (known : Int → Prop) (m : Machine) : Prop where
  var_nonneg : 0 ≤ m.var
  members : ∀ x ∈ m.current.members, Integer.Kept known m.var x

/-- The variable is a natural number, and programs can come to the members. -/
structure Attained (m : Machine) : Prop where
  var_nonneg : 0 ≤ m.var
  members : ∀ x ∈ m.current.members, Integer.Attained m.var x

variable {known known' : Int → Prop} {m : Machine}

/-- A machine holds what may be attained if it keeps what is written. -/
theorem attained_iff_keeps : m.Attained ↔ m.Keeps Integer.IsWritten :=
  ⟨fun h => ⟨h.var_nonneg, fun x hx => Integer.attained_iff_kept.1 (h.members x hx)⟩,
    fun h => ⟨h.var_nonneg, fun x hx => Integer.attained_iff_kept.2 (h.members x hx)⟩⟩

/-- A new machine keeps what is known, since it holds nothing yet. -/
theorem keeps_fresh : Keeps known .fresh :=
  ⟨Int.le_refl 0, fun _ h => absurd h List.not_mem_nil⟩

theorem attained_fresh : Attained .fresh :=
  attained_iff_keeps.2 keeps_fresh

/-- A machine keeps what it keeps when more is known. -/
theorem Keeps.imp (h : m.Keeps known) (hknown : ∀ x, known x → known' x) : m.Keeps known' :=
  ⟨h.var_nonneg, fun x hx => (h.members x hx).imp_left (hknown x)⟩

/-- The current set may be replaced by one whose members are not new. -/
theorem Keeps.withCurrent (h : m.Keeps known) {current : IntSet}
    (hcurrent : ∀ x ∈ current.members, x ∈ m.current.members ∨ Integer.Kept known m.var x) :
    Keeps known { m with current } :=
  ⟨h.var_nonneg, fun x hx => (hcurrent x hx).elim (h.members x) id⟩

/-- A flip keeps what is known. -/
theorem Keeps.flip (h : m.Keeps known) {x : Int} (hx : Integer.Kept known m.var x) :
    (m.flip x).Keeps known := by
  refine h.withCurrent fun y hy => ?_
  have hor : y ∈ m.current.members ∨ y ∈ (IntSet.of [x]).members := by
    split at hy
    · exact IntSet.mem_members_of_diff hy
    · exact IntSet.mem_members_of_union hy
  refine hor.imp_right fun hsingle => ?_
  rwa [List.mem_singleton.1 (IntSet.mem_members_of.1 hsingle)]

/-- An operation with a set of known literals keeps what is known. -/
theorem Keeps.apply (h : m.Keeps known) (o : SetOperator) {es : List Expr}
    (hes : ∀ n, .literal n ∈ es → known n) : (m.apply o (evalSet m.var es)).Keeps known := by
  refine h.withCurrent fun x hx => ?_
  have hor : x ∈ m.current.members ∨ x ∈ (evalSet m.var es).members := by
    cases o with
    | union => exact IntSet.mem_members_of_union hx
    | intersection => exact IntSet.mem_members_of_inter hx
    | leftDifference => exact IntSet.mem_members_of_diff hx
    | rightDifference => exact (IntSet.mem_members_of_diff hx).symm
  refine hor.imp_right fun hoperand => ?_
  obtain ⟨e, he, rfl⟩ := List.mem_map.1 (IntSet.mem_members_of.1 hoperand)
  refine e.kept_eval h.var_nonneg ?_
  rintro n rfl
  exact hes n he

/-- What was counted before is at most the variable after it has grown. -/
theorem Keeps.increment (h : m.Keeps known) : m.increment.Keeps known := by
  have hle : m.var ≤ m.increment.var := Int.le_add_of_nonneg_right (by decide)
  refine ⟨Int.le_trans h.var_nonneg hle, fun x hx => ?_⟩
  exact (h.members x hx).imp_right fun ⟨hnonneg, hcounted⟩ => ⟨hnonneg, Int.le_trans hcounted hle⟩

end Machine

/-! ## Runs -/

namespace RunState

/-- Where a run stands on a machine that keeps known integers only, with no other literals to come. -/
structure Keeps (known : Int → Prop) (r : RunState) : Prop where
  machine : r.machine.Keeps known
  todo : ∀ x, Mentions r.todo x → known x

/-- Where a run of a program stands whose literals fit decimal text. -/
structure Attained (r : RunState) : Prop where
  machine : r.machine.Attained
  todo : StatementsFit r.todo

variable {known : Int → Prop} {r r' next : RunState} {call : Call} {out : List Char}

/-- A run holds what may be attained if it keeps what is written. -/
theorem attained_iff_keeps : r.Attained ↔ r.Keeps Integer.IsWritten :=
  ⟨fun h => ⟨Machine.attained_iff_keeps.1 h.machine, (statementsFit_iff _).1 h.todo⟩,
    fun h => ⟨Machine.attained_iff_keeps.2 h.machine, (statementsFit_iff _).2 h.todo⟩⟩

/-- Every call keeps to the integers that are known or counted. -/
theorem Keeps.step (h : r.Keeps known) (hstep : r.step = some (call, next)) : next.Keeps known := by
  obtain ⟨todo, m, input⟩ := r
  obtain ⟨hm, htodo⟩ := h
  cases todo with
  | nil => cases hstep
  | cons s rest =>
    simp only [mentions_cons, or_imp, forall_and] at htodo
    obtain ⟨hs, hrest⟩ := htodo
    cases s with
    | flip e =>
      obtain ⟨rfl, rfl⟩ := Prod.mk.inj (Option.some.inj hstep)
      exact ⟨hm.flip (e.kept_eval hm.var_nonneg fun n he => hs n (Statement.mentions_flip.2 he)), hrest⟩
    | put c =>
      obtain ⟨rfl, rfl⟩ := Prod.mk.inj (Option.some.inj hstep)
      exact ⟨hm, hrest⟩
    | apply o es =>
      obtain ⟨rfl, rfl⟩ := Prod.mk.inj (Option.some.inj hstep)
      exact ⟨hm.apply o fun n he => hs n (Statement.mentions_apply.2 he), hrest⟩
    | complement =>
      obtain ⟨rfl, rfl⟩ := Prod.mk.inj (Option.some.inj hstep)
      exact ⟨⟨hm.var_nonneg, hm.members⟩, hrest⟩
    | increment =>
      obtain ⟨rfl, rfl⟩ := Prod.mk.inj (Option.some.inj hstep)
      exact ⟨hm.increment, hrest⟩
    | read =>
      obtain ⟨rfl, rfl⟩ := Prod.mk.inj (Option.some.inj hstep)
      exact ⟨⟨hm.var_nonneg, hm.members⟩, hrest⟩
    | loop p es body =>
      obtain ⟨rfl, rfl⟩ := Prod.mk.inj (Option.some.inj hstep)
      refine ⟨hm, ?_⟩
      -- a body that is put in front is a part of the statement
      dsimp only
      split
      · simp only [mentions_append, mentions_cons, or_imp, forall_and]
        exact ⟨fun x hx => hs x (Statement.mentions_loop.2 (.inr hx)), hs, hrest⟩
      · exact hrest
    | test c body =>
      obtain ⟨rfl, rfl⟩ := Prod.mk.inj (Option.some.inj hstep)
      refine ⟨hm, ?_⟩
      dsimp only
      split
      · simp only [mentions_append, or_imp, forall_and]
        exact ⟨fun x hx => hs x (Statement.mentions_test.2 hx), hrest⟩
      · exact hrest

/-- A run keeps what is known, whatever it does. -/
theorem Reaches.keeps (h : r.Reaches out r') (hr : r.Keeps known) : r'.Keeps known := by
  induction h with
  | refl => exact hr
  | head hstep _ ih => exact ih (hr.step hstep)

theorem Reaches.attained (h : r.Reaches out r') (hr : r.Attained) : r'.Attained :=
  attained_iff_keeps.2 (h.keeps (attained_iff_keeps.1 hr))

/-- Only an increment changes the variable. -/
theorem var_of_step (hstep : r.step = some (call, next)) :
    next.machine.var = r.machine.var + [call].count .increment := by
  obtain ⟨todo, m, input⟩ := r
  cases todo with
  | nil => cases hstep
  | cons s rest =>
    cases s <;>
      · obtain ⟨rfl, rfl⟩ := Prod.mk.inj (Option.some.inj hstep)
        simp [Machine.flip, Machine.apply, Machine.complement, Machine.increment, Machine.read]

/-- The variable counts the increments of a run. -/
theorem var_after_trace (n : Nat) (r : RunState) :
    (r.after (r.trace n)).machine.var =
      r.machine.var + ((r.trace n).map (·.1)).count .increment := by
  induction n generalizing r with
  | zero => simp [trace, after]
  | succ n ih =>
    rw [trace]
    cases hstep : r.step with
    | none => simp [after]
    | some result =>
      obtain ⟨call, next⟩ := result
      simp only [after_cons, List.map_cons]
      rw [ih, var_of_step hstep, Int.add_assoc, ← Int.natCast_add, ← List.count_append,
        List.singleton_append]

end RunState

/-! ## Machines as messages show them -/

/-- What may be attained has decimal text if the variable has. -/
theorem Integer.Attained.fitsDecimal {var x : Int} (h : Attained var x)
    (hvar : FitsDecimal var) : FitsDecimal x := by
  obtain ⟨hnonneg, hfits | hle⟩ := h
  · exact hfits
  · have habs : x.natAbs ≤ var.natAbs := by omega
    exact Nat.lt_of_le_of_lt habs hvar

/-- A natural number below the power of ten fits decimal text. -/
theorem Integer.fitsDecimal_of_lt {x : Int} (hnonneg : 0 ≤ x) (h : x < 10 ^ decimalDigitLimit) :
    FitsDecimal x := by
  obtain ⟨n, rfl⟩ := Int.eq_ofNat_of_zero_le hnonneg
  rw [FitsDecimal, Int.natAbs_natCast, Nat.pow_eq, ← Int.ofNat_lt, Int.natCast_pow]
  exact h

/-- An integer past the limit has no decimal text. -/
theorem Integer.not_fitsDecimal_of_le {x : Int} (h : 10 ^ decimalDigitLimit ≤ x) :
    ¬ FitsDecimal x := by
  have hnonneg : 0 ≤ x := Int.le_trans (Int.pow_nonneg (by decide)) h
  obtain ⟨n, rfl⟩ := Int.eq_ofNat_of_zero_le hnonneg
  rw [FitsDecimal, Int.natAbs_natCast, Nat.pow_eq, ← Int.ofNat_lt, Int.natCast_pow, Int.not_lt]
  exact h

/-- Integers that have decimal text are all shown. -/
theorem mapM_decimal? {xs : List Int} (h : ∀ x ∈ xs, Integer.FitsDecimal x) :
    xs.mapM Integer.decimal? = some (xs.map Integer.decimal) := by
  induction xs with
  | nil => rfl
  | cons x xs ih =>
    obtain ⟨hx, hxs⟩ := List.forall_mem_cons.1 h
    rw [List.mapM_cons, Integer.decimal?, if_pos hx, ih hxs]
    rfl

/-- A set whose members have decimal text is shown. -/
theorem IntSet.exists_shown {s : IntSet} (h : ∀ x ∈ s.members, Integer.FitsDecimal x) :
    ∃ shown, s.shown? = some shown := by
  rw [shown?, mapM_decimal? h]
  exact ⟨_, rfl⟩

/-- A machine whose variable is past the limit is not shown. -/
theorem Machine.shown_of_tooLong {m : Machine} (h : 10 ^ decimalDigitLimit ≤ m.var) :
    m.shown = .error .digitLimit := by
  have hvar : Integer.decimal? m.var = none := if_neg (Integer.not_fitsDecimal_of_le h)
  unfold shown
  rw [hvar]
  cases m.current.shown? <;> rfl

/-- Only a variable past the limit of decimal text keeps a machine from being shown. -/
theorem Machine.Attained.exists_shown {m : Machine} (h : m.Attained)
    (hvar : m.var < 10 ^ decimalDigitLimit) : ∃ shown, m.shown = .ok shown := by
  have hfits := Integer.fitsDecimal_of_lt h.var_nonneg hvar
  obtain ⟨current, hcurrent⟩ :=
    IntSet.exists_shown fun x hx => (h.members x hx).fitsDecimal hfits
  rw [shown, hcurrent, Integer.decimal?, if_pos hfits]
  exact ⟨_, rfl⟩

end SetLang
