/-!
# `Ascending`: finite sets of integers

A finite set of integers is kept as the ascending list of its members, so that equal sets are equal
values.
-/

namespace SetLang

/-- A finite set of integers: its members in ascending order. -/
structure Ascending where
  toList : List Int
  ascending : toList.Pairwise (· < ·)
deriving DecidableEq, Repr

namespace Ascending

instance : Membership Int Ascending := ⟨fun s x => x ∈ s.toList⟩

instance (x : Int) (s : Ascending) : Decidable (x ∈ s) :=
  inferInstanceAs (Decidable (x ∈ s.toList))

/-- A set has the members that its list has. -/
theorem mem_iff {x : Int} {s : Ascending} : x ∈ s ↔ x ∈ s.toList := Iff.rfl

/-- The empty set. -/
def empty : Ascending := ⟨[], .nil⟩

/-- Puts an integer in its place in an ascending list. -/
def insertInto (x : Int) : List Int → List Int
  | [] => [x]
  | y :: rest =>
    if x < y then x :: y :: rest
    else if x = y then y :: rest
    else y :: insertInto x rest

/-- Insertion adds one member. -/
@[simp] theorem mem_insertInto {a x : Int} {l : List Int} : a ∈ insertInto x l ↔ a = x ∨ a ∈ l := by
  induction l with
  | nil => simp [insertInto]
  | cons y rest ih =>
    simp only [insertInto]
    split
    · simp
    · split
      · next h => subst h; simp
      · simp only [List.mem_cons, ih]
        constructor
        · rintro (h | h | h) <;> simp [h]
        · rintro (h | h | h) <;> simp [h]

/-- Insertion keeps a list ascending. -/
theorem pairwise_insertInto {x : Int} {l : List Int} (h : l.Pairwise (· < ·)) :
    (insertInto x l).Pairwise (· < ·) := by
  induction l with
  | nil => simp [insertInto]
  | cons y rest ih =>
    have hy := List.pairwise_cons.1 h
    simp only [insertInto]
    split
    · next hxy =>
      refine List.pairwise_cons.2 ⟨fun b hb => ?_, h⟩
      rcases List.mem_cons.1 hb with rfl | hb
      · exact hxy
      · have := hy.1 b hb
        omega
    · split
      · exact h
      · refine List.pairwise_cons.2 ⟨fun b hb => ?_, ih hy.2⟩
        rcases mem_insertInto.1 hb with rfl | hb
        · omega
        · exact hy.1 b hb

/-- Adds a member. -/
def insert (x : Int) (s : Ascending) : Ascending :=
  ⟨insertInto x s.toList, pairwise_insertInto s.ascending⟩

/-- The set of the members of a list. -/
def ofList (l : List Int) : Ascending :=
  l.foldr insert empty

/-- The members that satisfy a test. -/
def filter (p : Int → Bool) (s : Ascending) : Ascending :=
  ⟨s.toList.filter p, s.ascending.filter p⟩

/-- The members of either set. -/
def union (s t : Ascending) : Ascending :=
  t.toList.foldr insert s

/-- The members of both sets. -/
def inter (s t : Ascending) : Ascending :=
  s.filter fun x => decide (x ∈ t)

/-- The members of the first set that are not in the second. -/
def diff (s t : Ascending) : Ascending :=
  s.filter fun x => decide (x ∉ t)

/-- Whether all members of the first set are in the second. -/
def subset (s t : Ascending) : Bool :=
  s.toList.all fun x => decide (x ∈ t)

end Ascending

end SetLang
