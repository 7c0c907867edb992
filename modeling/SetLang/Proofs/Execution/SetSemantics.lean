import SetLang.Program.Basic
import Mathlib.Data.Set.SymmDiff
import Mathlib.Order.ConditionallyCompleteLattice.Basic
import Mathlib.Order.CompletePartialOrder

/-!
# Programs over sets of integers

The meaning of programs, apart from any representation of sets. The current set is any set of
integers. A statement acts once at a time: it makes one call, changes the world, and leaves
statements to be done before the rest of the program. A loop leaves its body and itself while its
predicate holds; its guard is read anew each time, since the variable may have changed.
-/

namespace SetLang

open scoped symmDiff

/-! ## Expressions and relations -/

/-- The integer that an expression denotes while the variable has a given value. -/
inductive Expr.Denotes (var : ℤ) : Expr → ℤ → Prop where
  | literal (n : ℤ) : Denotes var (.literal n) n
  | percent : Denotes var .percent var

/-- The set of the integers that some expressions denote. -/
def exprSet (var : ℤ) (elements : List Expr) : Set ℤ :=
  {x | ∃ e ∈ elements, e.Denotes var x}

/-- The set that an operator makes of the current set and its operand. -/
def SetOperator.combine : SetOperator → Set ℤ → Set ℤ → Set ℤ
  | .union, current, operand => current ∪ operand
  | .intersection, current, operand => current ∩ operand
  | .leftDifference, current, operand => current \ operand
  | .rightDifference, current, operand => operand \ current

/-- The relation that a predicate stands for, between the current set and a guard. -/
def Predicate.Relates : Predicate → Set ℤ → Set ℤ → Prop
  | .subset, current, guard => current ⊆ guard
  | .properSubset, current, guard => current ⊂ guard
  | .notSubset, current, guard => ¬ current ⊆ guard
  | .superset, current, guard => guard ⊆ current
  | .properSuperset, current, guard => guard ⊂ current
  | .notSuperset, current, guard => ¬ guard ⊆ current
  | .equal, current, guard => current = guard

/-! ## Actions -/

/-- What a program works on: a set of integers, the variable, the register, what was written, and
the input that is left. -/
structure SetWorld where
  current : Set ℤ
  var : ℤ
  register : Option Char
  output : List Char
  input : List Char

/-- A call with its arguments and, where it answers a question, the answer. -/
inductive SetCall where
  | flip (element : ℤ)
  | put (c : Char)
  | apply (operator : SetOperator) (operand : Set ℤ)
  | complement
  | increment
  | read
  | holds (predicate : Predicate) (guard : Set ℤ) (answer : Bool)
  | matches (c : Char) (answer : Bool)

/-- One action of a statement: its call, the world after it, and the statements that it leaves. -/
inductive Statement.Acts :
    Statement → SetWorld → SetCall → SetWorld → List Statement → Prop where
  | flip {e : Expr} {x : ℤ} {w : SetWorld} : e.Denotes w.var x →
      Acts (.flip e) w (.flip x) { w with current := w.current ∆ {x} } []
  | put {c : Char} {w : SetWorld} :
      Acts (.put c) w (.put c) { w with output := w.output ++ [c] } []
  | apply {o : SetOperator} {es : List Expr} {w : SetWorld} :
      Acts (.apply o es) w (.apply o (exprSet w.var es))
        { w with current := o.combine w.current (exprSet w.var es) } []
  | complement {w : SetWorld} :
      Acts .complement w .complement { w with current := w.currentᶜ } []
  | increment {w : SetWorld} : Acts .increment w .increment { w with var := w.var + 1 } []
  | readChar {c : Char} {rest : List Char} {w : SetWorld} : w.input = c :: rest →
      Acts .read w .read { w with register := some c, input := rest } []
  | readEnd {w : SetWorld} : w.input = [] →
      Acts .read w .read { w with register := none } []
  | loopAgain {p : Predicate} {es : List Expr} {body : List Statement} {w : SetWorld} :
      p.Relates w.current (exprSet w.var es) →
      Acts (.loop p es body) w (.holds p (exprSet w.var es) true) w (body ++ [.loop p es body])
  | loopOver {p : Predicate} {es : List Expr} {body : List Statement} {w : SetWorld} :
      ¬ p.Relates w.current (exprSet w.var es) →
      Acts (.loop p es body) w (.holds p (exprSet w.var es) false) w []
  | testPassed {c : Char} {body : List Statement} {w : SetWorld} : w.register = some c →
      Acts (.test c body) w (.matches c true) w body
  | testFailed {c : Char} {body : List Statement} {w : SetWorld} : w.register ≠ some c →
      Acts (.test c body) w (.matches c false) w []

/-! ## Runs -/

/-- Where a run over sets stands: the statements to be done, and the world. -/
structure SetState where
  todo : List Statement
  world : SetWorld

namespace SetState

/-- One step of a run: the first statement acts, and what it leaves goes before the rest. -/
inductive Step : SetState → SetCall → SetState → Prop where
  | act {s : Statement} {rest left : List Statement} {w w' : SetWorld} {call : SetCall} :
      s.Acts w call w' left → Step ⟨s :: rest, w⟩ call ⟨left ++ rest, w'⟩

/-- Some steps of a run, with their calls in order. -/
inductive Steps : SetState → List SetCall → SetState → Prop where
  | refl (σ : SetState) : Steps σ [] σ
  | head {σ σ' σ'' : SetState} {call : SetCall} {calls : List SetCall} :
      Step σ call σ' → Steps σ' calls σ'' → Steps σ (call :: calls) σ''

/-- A run has halted where no step is possible. -/
def Halted (σ : SetState) : Prop :=
  ∀ call σ', ¬ Step σ call σ'

end SetState

/-! ## Determinism -/

theorem Expr.Denotes.unique {var x y : ℤ} {e : Expr} (hx : e.Denotes var x)
    (hy : e.Denotes var y) : x = y := by
  cases hx <;> cases hy <;> rfl

/-- A statement acts in one way at most. -/
theorem Statement.Acts.unique {s : Statement} {w w' w'' : SetWorld} {call call' : SetCall}
    {left left' : List Statement} (h : s.Acts w call w' left) (h' : s.Acts w call' w'' left') :
    call = call' ∧ w' = w'' ∧ left = left' := by
  -- where a statement may act in two ways, each of them excludes the other
  cases h with
  | flip hx =>
    cases h' with
    | flip hy =>
      obtain rfl := hx.unique hy
      exact ⟨rfl, rfl, rfl⟩
  | readChar hinput =>
    cases h' with
    | readChar hinput' =>
      obtain ⟨rfl, rfl⟩ := List.cons.inj (hinput.symm.trans hinput')
      exact ⟨rfl, rfl, rfl⟩
    | readEnd hinput' => exact absurd (hinput.symm.trans hinput') (by simp)
  | readEnd hinput =>
    cases h' with
    | readChar hinput' => exact absurd (hinput.symm.trans hinput') (by simp)
    | readEnd hinput' => exact ⟨rfl, rfl, rfl⟩
  | loopAgain hp =>
    cases h' with
    | loopAgain hp' => exact ⟨rfl, rfl, rfl⟩
    | loopOver hp' => exact absurd hp hp'
  | loopOver hp =>
    cases h' with
    | loopAgain hp' => exact absurd hp' hp
    | loopOver hp' => exact ⟨rfl, rfl, rfl⟩
  | testPassed hc =>
    cases h' with
    | testPassed hc' => exact ⟨rfl, rfl, rfl⟩
    | testFailed hc' => exact absurd hc hc'
  | testFailed hc =>
    cases h' with
    | testPassed hc' => exact absurd hc' hc
    | testFailed hc' => exact ⟨rfl, rfl, rfl⟩
  | put => cases h'; exact ⟨rfl, rfl, rfl⟩
  | apply => cases h'; exact ⟨rfl, rfl, rfl⟩
  | complement => cases h'; exact ⟨rfl, rfl, rfl⟩
  | increment => cases h'; exact ⟨rfl, rfl, rfl⟩

theorem SetState.Step.unique {σ σ' σ'' : SetState} {call call' : SetCall}
    (h : Step σ call σ') (h' : Step σ call' σ'') : call = call' ∧ σ' = σ'' := by
  cases h with
  | act ha =>
    cases h' with
    | act ha' =>
      obtain ⟨rfl, rfl, rfl⟩ := ha.unique ha'
      exact ⟨rfl, rfl⟩

end SetLang
