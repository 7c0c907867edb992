import SetLang.IntSet.Ascending
import SetLang.Number.Integer
import SetLang.Text.Lines

/-!
# `IntSet`: finite and cofinite sets of integers

A set of integers is finite, or it is the complement of a finite set. Both kinds are closed under
union, intersection, difference and complement, so every operation is exact, and each set has one
representation.
-/

namespace SetLang

/-- A finite set of integers, given by its members, or a cofinite one, given by those it leaves
out. -/
structure IntSet where
  members : Ascending
  cofinite : Bool
deriving DecidableEq, Repr

namespace IntSet

/-- The finite set of some integers. -/
def of (elements : List Int) : IntSet :=
  ⟨.ofList elements, false⟩

/-- The empty set. -/
def empty : IntSet := ⟨.empty, false⟩

/-- Whether an integer is in a set. -/
def contains (s : IntSet) (x : Int) : Bool :=
  decide (x ∈ s.members) != s.cofinite

/-- The integers that are not in a set. -/
def compl (s : IntSet) : IntSet :=
  ⟨s.members, !s.cofinite⟩

/-- The integers in either set. -/
def union (s t : IntSet) : IntSet :=
  match s.cofinite, t.cofinite with
  | false, false => ⟨s.members.union t.members, false⟩
  | true, true => ⟨s.members.inter t.members, true⟩
  | true, false => ⟨s.members.diff t.members, true⟩
  | false, true => ⟨t.members.diff s.members, true⟩

/-- The integers in both sets. -/
def inter (s t : IntSet) : IntSet :=
  match s.cofinite, t.cofinite with
  | false, false => ⟨s.members.inter t.members, false⟩
  | true, true => ⟨s.members.union t.members, true⟩
  | true, false => ⟨t.members.diff s.members, false⟩
  | false, true => ⟨s.members.diff t.members, false⟩

/-- The integers in the first set that are not in the second. -/
def diff (s t : IntSet) : IntSet :=
  s.inter t.compl

/-- Whether every integer of the first set is in the second. A cofinite set is infinite, so it has
no finite superset. -/
def subset (s t : IntSet) : Bool :=
  match s.cofinite, t.cofinite with
  | false, false => s.members.subset t.members
  | false, true => (s.members.inter t.members).toList.isEmpty
  | true, false => false
  | true, true => t.members.subset s.members

/-- Whether the first set is a subset of the second and differs from it. -/
def properSubset (s t : IntSet) : Bool :=
  s.subset t && s != t

/-- Whether every integer of the second set is in the first. -/
def superset (s t : IntSet) : Bool :=
  t.subset s

/-- Whether the first set is a superset of the second and differs from it. -/
def properSuperset (s t : IntSet) : Bool :=
  t.properSubset s

/-- A set as messages show it; `none` if a member is past the limit of decimal text. -/
def shown? (s : IntSet) : Option String :=
  (s.members.toList.mapM Integer.decimal?).map fun shown =>
    (if s.cofinite then "~ZSet(\x7b" else "ZSet(\x7b") ++ Text.joinWith ", " shown ++ "\x7d)"

end IntSet

end SetLang
