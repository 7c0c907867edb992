import SetLang.IntSet.Basic
import Mathlib.Data.Set.BooleanAlgebra
import Mathlib.Data.Set.Finite.Basic
import Mathlib.Order.CompletePartialOrder
import Mathlib.Tactic.Tauto

/-!
# Sets of integers that an `IntSet` stands for

Every `IntSet` denotes a set of integers, and every operation and relation on it is the one on the
sets denoted. Two facts carry the relations: no finite set has all integers, so a cofinite set is
never inside a finite one; and each denoted set has one representation, so equality of values is
equality of sets.
-/

namespace SetLang

/-! ## Finite sets -/

namespace Ascending

variable {x : ℤ} {s t : Ascending}

/-- A finite set is determined by its members. -/
theorem ext_mem (h : ∀ x, x ∈ s ↔ x ∈ t) : s = t := by
  obtain ⟨xs, hxs⟩ := s
  obtain ⟨ys, hys⟩ := t
  have hlists : xs = ys := hxs.eq_of_mem_iff hys fun x => h x
  subst hlists
  rfl

/-- What is inserted and what was there before are the members. -/
@[simp] theorem mem_foldr_insert {l : List ℤ} : x ∈ l.foldr insert s ↔ x ∈ l ∨ x ∈ s := by
  induction l with
  | nil => simp
  | cons y l ih =>
    have hinsert : x ∈ (l.foldr insert s).insert y ↔ x = y ∨ x ∈ l.foldr insert s :=
      mem_insertInto
    simp [hinsert, ih, or_assoc]

/-- The members of a set that is made of a list are those of the list. -/
@[simp] theorem mem_ofList {l : List ℤ} : x ∈ ofList l ↔ x ∈ l := by
  have hempty : x ∉ empty := List.not_mem_nil
  simp [ofList, hempty]

@[simp] theorem mem_filter {p : ℤ → Bool} : x ∈ s.filter p ↔ x ∈ s ∧ p x = true :=
  List.mem_filter

@[simp] theorem mem_union : x ∈ s.union t ↔ x ∈ s ∨ x ∈ t := by
  rw [union, mem_foldr_insert, or_comm, mem_iff (s := t)]

@[simp] theorem mem_inter : x ∈ s.inter t ↔ x ∈ s ∧ x ∈ t := by
  simp [inter]

@[simp] theorem mem_diff : x ∈ s.diff t ↔ x ∈ s ∧ x ∉ t := by
  simp [diff]

theorem subset_eq_true_iff : s.subset t = true ↔ ∀ x, x ∈ s → x ∈ t := by
  simp [subset, mem_iff]

theorem toList_isEmpty_iff : s.toList.isEmpty = true ↔ ∀ x, x ∉ s := by
  rw [List.isEmpty_iff, List.eq_nil_iff_forall_not_mem]
  rfl

/-- Two finite sets leave some integer out. -/
theorem exists_notMem (s t : Ascending) : ∃ x, x ∉ s ∧ x ∉ t := by
  -- both together are finite, and there are infinitely many integers
  have hfinite : {x | x ∈ s.toList ++ t.toList}.Finite := List.finite_toSet _
  obtain ⟨x, hx⟩ := hfinite.infinite_compl.nonempty
  exact ⟨x, by simpa [mem_iff] using hx⟩

end Ascending

/-! ## Denotations -/

namespace IntSet

variable {x : ℤ} {s t : IntSet}

/-- The set of integers that a representation stands for. -/
def denote (s : IntSet) : Set ℤ :=
  if s.cofinite then {x | x ∉ s.members} else {x | x ∈ s.members}

/-- An integer is in the set denoted if the test for it succeeds. -/
theorem mem_denote_iff_contains : x ∈ s.denote ↔ s.contains x = true := by
  obtain ⟨members, cofinite⟩ := s
  cases cofinite <;> simp [denote, contains]

@[simp] theorem mem_denote_finite {members : Ascending} :
    x ∈ denote ⟨members, false⟩ ↔ x ∈ members := Iff.rfl

@[simp] theorem mem_denote_cofinite {members : Ascending} :
    x ∈ denote ⟨members, true⟩ ↔ x ∉ members := Iff.rfl

/-- A set literal denotes the set of its elements. -/
@[simp] theorem denote_of (elements : List ℤ) : (of elements).denote = {x | x ∈ elements} := by
  ext x
  simp [of]

/-- The complement denotes the complement. -/
@[simp] theorem denote_compl (s : IntSet) : s.compl.denote = s.denoteᶜ := by
  obtain ⟨members, cofinite⟩ := s
  ext x
  cases cofinite <;> simp [compl]

/-- The union denotes the union, in each of the four cases. -/
@[simp] theorem denote_union (s t : IntSet) : (s.union t).denote = s.denote ∪ t.denote := by
  obtain ⟨ms, cs⟩ := s
  obtain ⟨mt, ct⟩ := t
  ext x
  rw [Set.mem_union]
  cases cs <;> cases ct <;>
    simp only [union, mem_denote_finite, mem_denote_cofinite, Ascending.mem_union,
      Ascending.mem_inter, Ascending.mem_diff] <;> tauto

/-- The intersection denotes the intersection, in each of the four cases. -/
@[simp] theorem denote_inter (s t : IntSet) : (s.inter t).denote = s.denote ∩ t.denote := by
  obtain ⟨ms, cs⟩ := s
  obtain ⟨mt, ct⟩ := t
  ext x
  rw [Set.mem_inter_iff]
  cases cs <;> cases ct <;>
    simp only [inter, mem_denote_finite, mem_denote_cofinite, Ascending.mem_union,
      Ascending.mem_inter, Ascending.mem_diff] <;> tauto

/-- The difference denotes the difference. -/
@[simp] theorem denote_diff (s t : IntSet) : (s.diff t).denote = s.denote \ t.denote := by
  rw [diff, denote_inter, denote_compl, Set.sdiff_eq]

/-! ## Relations -/

/-- A set has one representation. -/
theorem denote_injective : Function.Injective denote := by
  intro s t h
  obtain ⟨ms, cs⟩ := s
  obtain ⟨mt, ct⟩ := t
  have hmem : ∀ x, x ∈ denote ⟨ms, cs⟩ ↔ x ∈ denote ⟨mt, ct⟩ := fun x => by rw [h]
  -- an integer outside both lists of members tells a finite set from a cofinite one
  obtain ⟨x, hs, ht⟩ := Ascending.exists_notMem ms mt
  cases cs with
  | false =>
    cases ct with
    | false =>
      have hmembers : ms = mt := Ascending.ext_mem hmem
      rw [hmembers]
    | true => exact absurd ((hmem x).2 ht) hs
  | true =>
    cases ct with
    | false => exact absurd ((hmem x).1 hs) ht
    | true =>
      have hmembers : ms = mt := Ascending.ext_mem fun y => not_iff_not.1 (hmem y)
      rw [hmembers]

/-- The test for a subset is decided by the sets denoted. -/
theorem subset_eq_true_iff : s.subset t = true ↔ s.denote ⊆ t.denote := by
  obtain ⟨ms, cs⟩ := s
  obtain ⟨mt, ct⟩ := t
  rw [Set.subset_def]
  cases cs with
  | false =>
    cases ct with
    | false => exact Ascending.subset_eq_true_iff
    | true =>
      simp only [subset, Ascending.toList_isEmpty_iff, Ascending.mem_inter, mem_denote_finite,
        mem_denote_cofinite, not_and]
  | true =>
    cases ct with
    | false =>
      -- a cofinite set has a member that a finite one has not
      obtain ⟨x, hs, ht⟩ := Ascending.exists_notMem ms mt
      simp only [subset, Bool.false_eq_true, false_iff, not_forall]
      exact ⟨x, hs, ht⟩
    | true =>
      simp only [subset, Ascending.subset_eq_true_iff, mem_denote_cofinite, not_imp_not]

/-- The test for a proper subset is decided by the sets denoted. -/
theorem properSubset_eq_true_iff : s.properSubset t = true ↔ s.denote ⊂ t.denote := by
  rw [properSubset, Bool.and_eq_true, bne_iff_ne, subset_eq_true_iff, ssubset_iff_subset_ne,
    denote_injective.ne_iff]

theorem superset_eq_true_iff : s.superset t = true ↔ s.denote ⊇ t.denote :=
  subset_eq_true_iff

theorem properSuperset_eq_true_iff : s.properSuperset t = true ↔ s.denote ⊃ t.denote :=
  properSubset_eq_true_iff

/-- Representations are equal exactly if the sets denoted are. -/
theorem beq_eq_true_iff : (s == t) = true ↔ s.denote = t.denote := by
  rw [beq_iff_eq, denote_injective.eq_iff]

/-! ## Finite and cofinite sets -/

theorem finite_setOf_mem (members : Ascending) : {x | x ∈ members}.Finite :=
  List.finite_toSet members.toList

/-- Every finite set is the set of the members of a representation. -/
theorem exists_forall_mem_iff {X : Set ℤ} (hX : X.Finite) :
    ∃ members : Ascending, ∀ x, x ∈ members ↔ x ∈ X := by
  refine ⟨.ofList hX.toFinset.toList, fun x => ?_⟩
  rw [Ascending.mem_ofList, Finset.mem_toList, Set.Finite.mem_toFinset]

/-- The sets denoted are the finite ones and those whose complement is finite. -/
theorem range_denote : Set.range denote = {X | X.Finite ∨ Xᶜ.Finite} := by
  ext X
  rw [Set.mem_range, Set.mem_ofPred_eq]
  constructor
  · rintro ⟨⟨members, cofinite⟩, rfl⟩
    have hfinite := finite_setOf_mem members
    by_cases hflag : cofinite = true
    · subst hflag
      right
      rw [← denote_compl]
      exact hfinite
    · left
      rw [Bool.not_eq_true] at hflag
      subst hflag
      exact hfinite
  · intro hX
    rcases hX with hX | hX
    · obtain ⟨members, hmembers⟩ := exists_forall_mem_iff hX
      exact ⟨⟨members, false⟩, Set.ext hmembers⟩
    · obtain ⟨members, hmembers⟩ := exists_forall_mem_iff hX
      refine ⟨⟨members, true⟩, Set.ext fun x => ?_⟩
      rw [mem_denote_cofinite, hmembers, Set.mem_compl_iff, not_not]

/-- The finite and the cofinite sets of integers are represented exactly and in one way each. An
integer is in the result of an operation if and only if it is in the result of the operation on the
sets denoted, two representations stand in a relation if and only if the sets denoted do, and they
are the same if and only if they have the same integers. -/
theorem represents_finite_and_cofinite_sets (s t : IntSet) :
    Set.range denote = {X | X.Finite ∨ Xᶜ.Finite} ∧
    (∀ x, s.contains x = true ↔ x ∈ s.denote) ∧
    (∀ x, (s.union t).contains x = true ↔ x ∈ s.denote ∪ t.denote) ∧
    (∀ x, (s.inter t).contains x = true ↔ x ∈ s.denote ∩ t.denote) ∧
    (∀ x, (s.diff t).contains x = true ↔ x ∈ s.denote \ t.denote) ∧
    (∀ x, s.compl.contains x = true ↔ x ∈ s.denoteᶜ) ∧
    (s.subset t = true ↔ s.denote ⊆ t.denote) ∧
    (s.properSubset t = true ↔ s.denote ⊂ t.denote) ∧
    (s.superset t = true ↔ s.denote ⊇ t.denote) ∧
    (s.properSuperset t = true ↔ s.denote ⊃ t.denote) ∧
    ((s == t) = true ↔ ∀ x, s.contains x = true ↔ t.contains x = true) ∧
    (s.denote = t.denote ↔ s.members = t.members ∧ s.cofinite = t.cofinite) := by
  refine ⟨range_denote, fun x => mem_denote_iff_contains.symm, ?_, ?_, ?_, ?_, subset_eq_true_iff,
    properSubset_eq_true_iff, superset_eq_true_iff, properSuperset_eq_true_iff, ?_, ?_⟩
  · intro x
    rw [← mem_denote_iff_contains, denote_union]
  · intro x
    rw [← mem_denote_iff_contains, denote_inter]
  · intro x
    rw [← mem_denote_iff_contains, denote_diff]
  · intro x
    rw [← mem_denote_iff_contains, denote_compl]
  · simp only [← mem_denote_iff_contains]
    rw [beq_eq_true_iff, Set.ext_iff]
  · rw [denote_injective.eq_iff, IntSet.mk.injEq]

end IntSet

end SetLang
