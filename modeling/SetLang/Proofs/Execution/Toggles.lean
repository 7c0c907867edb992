import SetLang.Proofs.Execution.Refinement
import Mathlib.Algebra.Ring.Parity

/-!
# Flips and complements

A flip changes which members a machine lists, and a complement changes whether the set is finite or
cofinite. Main statement: after flips of any integers the listed members are the symmetric difference of
those before and the integers that were flipped an odd number of times. So only the parities count: the
calls may come in any order, complements among them, and flips that are repeated undo each other.
-/

namespace SetLang

open scoped symmDiff

/-! ## Members -/

namespace Ascending

/-- Takes a member out, or puts it in. -/
def toggle (s : Ascending) (x : ℤ) : Ascending :=
  if x ∈ s then s.diff (ofList [x]) else s.union (ofList [x])

@[simp] theorem mem_toggle {s : Ascending} {x y : ℤ} : y ∈ s.toggle x ↔ (y ∈ s ↔ y ≠ x) := by
  have hsingle : y ∈ ofList [x] ↔ y = x := mem_ofList.trans List.mem_singleton
  unfold toggle
  split
  · next hx =>
    rw [mem_diff, hsingle]
    constructor
    · rintro ⟨hy, hne⟩
      exact iff_of_true hy hne
    · intro h
      have hne : y ≠ x := by
        rintro rfl
        exact h.1 hx rfl
      exact ⟨h.2 hne, hne⟩
  · next hx =>
    rw [mem_union, hsingle]
    constructor
    · rintro (hy | rfl)
      · exact iff_of_true hy fun hyx => hx (hyx ▸ hy)
      · exact iff_of_false hx fun hne => hne rfl
    · intro h
      by_cases hyx : y = x
      · exact .inr hyx
      · exact .inl (h.2 hyx)

end Ascending

/-! ## Toggles -/

/-- A call that undoes itself: a flip of an integer, or a complement. -/
inductive Toggle where
  | flip (x : ℤ)
  | complement
deriving DecidableEq, Repr

/-- The statement that makes a call. -/
def Toggle.statement : Toggle → Statement
  | flip x => .flip (.literal x)
  | complement => .complement

namespace Machine

/-- Makes a call. -/
def toggle (m : Machine) : Toggle → Machine
  | .flip x => m.flip x
  | .complement => m.complement

/-- A flip toggles a listed member, of a finite set as of a cofinite one. -/
theorem flip_eq (m : Machine) (x : ℤ) :
    m.flip x = { m with current := ⟨m.current.members.toggle x, m.current.cofinite⟩ } := by
  obtain ⟨⟨members, cofinite⟩, var, register⟩ := m
  by_cases hx : x ∈ members <;> cases cofinite <;>
    simp [flip, Ascending.toggle, hx, IntSet.contains, IntSet.diff, IntSet.inter, IntSet.union,
      IntSet.compl, IntSet.of]

variable {m : Machine} {ts us : List Toggle}

@[simp] theorem mem_members_toggle {t : Toggle} {y : ℤ} :
    y ∈ (m.toggle t).current.members ↔ (y ∈ m.current.members ↔ t ≠ .flip y) := by
  cases t with
  | flip x => rw [toggle, flip_eq, Ascending.mem_toggle, ne_comm, ne_eq, ne_eq, Toggle.flip.injEq]
  | complement => simp [toggle, complement, IntSet.compl]

@[simp] theorem cofinite_toggle {t : Toggle} :
    (m.toggle t).current.cofinite = true ↔ (m.current.cofinite = true ↔ t ≠ .complement) := by
  cases t with
  | flip x => simp [toggle, flip_eq]
  | complement => simp [toggle, complement, IntSet.compl]

@[simp] theorem var_toggle {t : Toggle} : (m.toggle t).var = m.var := by
  cases t <;> rfl

@[simp] theorem register_toggle {t : Toggle} : (m.toggle t).register = m.register := by
  cases t <;> rfl

/-! ## Sequences of toggles -/

/-- What a call turns round, and no other one touches, is turned round if the number of these calls
is odd. -/
theorem foldl_toggle_iff {p : Machine → Prop} {turning : Toggle}
    (hp : ∀ m t, p (m.toggle t) ↔ (p m ↔ t ≠ turning)) :
    p (ts.foldl toggle m) ↔ (p m ↔ Even (ts.count turning)) := by
  induction ts generalizing m with
  | nil => simp
  | cons t ts ih =>
    rw [List.foldl_cons, ih, hp]
    by_cases ht : t = turning
    · rw [ht, List.count_cons_self, Nat.even_add_one]
      tauto
    · rw [List.count_cons_of_ne ht]
      tauto

theorem mem_members_foldl_toggle {y : ℤ} : y ∈ (ts.foldl toggle m).current.members ↔
    (y ∈ m.current.members ↔ Even (ts.count (.flip y))) :=
  foldl_toggle_iff (p := fun m => y ∈ m.current.members) fun _ _ => mem_members_toggle

theorem cofinite_foldl_toggle : (ts.foldl toggle m).current.cofinite = true ↔
    (m.current.cofinite = true ↔ Even (ts.count .complement)) :=
  foldl_toggle_iff (p := fun m => m.current.cofinite = true) fun _ _ => cofinite_toggle

theorem var_foldl_toggle : (ts.foldl toggle m).var = m.var := by
  induction ts generalizing m with
  | nil => rfl
  | cons t ts ih => simp [ih]

theorem register_foldl_toggle : (ts.foldl toggle m).register = m.register := by
  induction ts generalizing m with
  | nil => rfl
  | cons t ts ih => simp [ih]

/-- A machine is determined by the members that it lists, the kind of its set, the variable and the
register. -/
theorem ext_listed {m' : Machine}
    (hmembers : ∀ y, y ∈ m.current.members ↔ y ∈ m'.current.members)
    (hcofinite : m.current.cofinite = true ↔ m'.current.cofinite = true)
    (hvar : m.var = m'.var) (hregister : m.register = m'.register) : m = m' := by
  obtain ⟨⟨members, cofinite⟩, var, register⟩ := m
  obtain ⟨⟨members', cofinite'⟩, var', register'⟩ := m'
  obtain rfl : members = members' := Ascending.ext_mem hmembers
  obtain rfl : cofinite = cofinite' := Bool.eq_iff_iff.2 hcofinite
  obtain rfl : var = var' := hvar
  obtain rfl : register = register' := hregister
  rfl

/-- Of a sequence of toggles only the parities count. -/
theorem foldl_toggle_eq_of_even (h : ∀ t, Even (ts.count t) ↔ Even (us.count t)) :
    ts.foldl toggle m = us.foldl toggle m := by
  refine ext_listed (fun y => ?_) ?_ ?_ ?_
  · rw [mem_members_foldl_toggle, mem_members_foldl_toggle, h]
  · rw [cofinite_foldl_toggle, cofinite_foldl_toggle, h]
  · rw [var_foldl_toggle, var_foldl_toggle]
  · rw [register_foldl_toggle, register_foldl_toggle]

theorem foldl_toggle_eq_of_perm (h : ts.Perm us) : ts.foldl toggle m = us.foldl toggle m :=
  foldl_toggle_eq_of_even fun t => by rw [h.count_eq]

/-- Two flips of one integer undo each other. -/
theorem flip_flip (x : ℤ) : (m.flip x).flip x = m := by
  have heven (t : Toggle) : Even (([.flip x] ++ [.flip x] : List Toggle).count t) := by
    rw [List.count_append]
    exact ⟨_, rfl⟩
  have hnone : [Toggle.flip x, .flip x].foldl toggle m = [].foldl toggle m :=
    foldl_toggle_eq_of_even fun t => iff_of_true (heven t) Even.zero
  exact hnone

theorem foldl_flip_eq (xs : List ℤ) : xs.foldl flip m = (xs.map Toggle.flip).foldl toggle m := by
  rw [List.foldl_map]
  rfl

end Machine

/-- A run of toggles makes their calls, and writes and reads nothing. -/
theorem RunState.runFor_toggles (m : Machine) (ts : List Toggle) (rest : List Statement)
    (input : List Char) (out : String) :
    runFor ts.length ⟨ts.map Toggle.statement ++ rest, m, input⟩ out =
      (0, ⟨rest, ts.foldl Machine.toggle m, input⟩, out) := by
  induction ts generalizing m with
  | nil => rfl
  | cons t ts ih =>
    rw [List.foldl_cons, ← ih]
    cases t <;> rfl

/-- Flips form a symmetric difference. After flips of any integers a set is finite or cofinite as it was
before, and the members that are listed are the symmetric difference of those before and the integers
that were flipped an odd number of times. The order of the flips does not count, two flips of one
integer undo each other, and complements may stand anywhere among the flips. The variable and the
register stay as they are, and a run of the calls writes nothing and reads nothing. -/
theorem flips_form_symmetric_difference (m : Machine) (xs : List ℤ) :
    let last := xs.foldl Machine.flip m
    last.current.cofinite = m.current.cofinite ∧
    {x | x ∈ last.current.members} = {x | x ∈ m.current.members} ∆ {x | Odd (xs.count x)} ∧
    last.var = m.var ∧ last.register = m.register ∧
    (∀ ys : List ℤ, ys.Perm xs → ys.foldl Machine.flip m = last) ∧
    (∀ x, (m.flip x).flip x = m) ∧
    (∀ ts us : List Toggle, ts.Perm us → ts.foldl Machine.toggle m = us.foldl Machine.toggle m) ∧
    ∀ (ts : List Toggle) (rest : List Statement) (input : List Char) (out : String),
      RunState.runFor ts.length ⟨ts.map Toggle.statement ++ rest, m, input⟩ out =
        (0, ⟨rest, ts.foldl Machine.toggle m, input⟩, out) := by
  intro last
  have hlast : last = (xs.map Toggle.flip).foldl Machine.toggle m := Machine.foldl_flip_eq xs
  have hcomplements : (xs.map Toggle.flip).count .complement = 0 :=
    List.count_eq_zero.2 (by simp)
  have hflips (x : ℤ) : (xs.map Toggle.flip).count (.flip x) = xs.count x :=
    List.count_map_of_injective _ _ (fun _ _ => Toggle.flip.inj) x
  rw [hlast]
  refine ⟨Bool.eq_iff_iff.2 ?_, Set.ext fun x => ?_, Machine.var_foldl_toggle,
    Machine.register_foldl_toggle, fun ys hys => ?_, fun _ => Machine.flip_flip _,
    fun ts us => Machine.foldl_toggle_eq_of_perm, RunState.runFor_toggles m⟩
  · rw [Machine.cofinite_foldl_toggle, hcomplements]
    exact iff_true_right Even.zero
  · rw [Set.mem_ofPred_eq, Machine.mem_members_foldl_toggle, hflips, ← Nat.not_odd_iff_even,
      Set.mem_symmDiff, Set.mem_ofPred_eq, Set.mem_ofPred_eq]
    tauto
  · rw [Machine.foldl_flip_eq, Machine.foldl_toggle_eq_of_perm (hys.map _)]

/-- Flips of a cofinite set with complements among them: the integers flipped twice stay as they were,
and an odd number of complements leaves a finite set. -/
theorem flips_form_symmetric_difference_cofinite :
    let m : Machine := ⟨(IntSet.of [1, 5]).compl, 2, some 'a'⟩
    let ts : List Toggle := [.complement, .flip 5, .flip 3, .complement, .flip 3, .flip (-4), .complement]
    let us : List Toggle := [.flip 3, .flip (-4), .complement, .complement, .complement, .flip 3, .flip 5]
    [3, -4, 3, 5].Perm [5, 3, 3, -4] ∧
      [3, -4, 3, 5].foldl Machine.flip m = [5, 3, 3, -4].foldl Machine.flip m ∧
      {x | x ∈ ([5, 3, 3, -4].foldl Machine.flip m).current.members} =
        {x | x ∈ m.current.members} ∆ {x | Odd ([5, 3, 3, -4].count x)} ∧
      ts.Perm us ∧ ts.foldl Machine.toggle m = us.foldl Machine.toggle m ∧
      us.foldl Machine.toggle m = ⟨.of [-4, 1], 2, some 'a'⟩ := by
  intro m ts us
  obtain ⟨-, hmembers, -, -, horder, -, htoggles, -⟩ :=
    flips_form_symmetric_difference m [5, 3, 3, -4]
  have hflips : [3, -4, 3, 5].Perm [5, 3, 3, -4] := by decide
  have hmoved : ts.Perm us := by decide +revert
  exact ⟨hflips, horder _ hflips, hmembers, hmoved, htoggles _ _ hmoved, by rfl⟩

end SetLang
