import SetLang.Proofs.Execution.Refinement

/-!
# Runs by name

A tree can be run as it stands: the kind of a node says which call of the machine comes next, and
the call gets its operator, its predicate or its character by the text that the node carries. Such a
run can go wrong in every way in which a node can be something else than a statement. On the tree of
a program it goes wrong nowhere: each step makes the call that the program makes, and so does every
number of steps.
-/

namespace SetLang

/-! ## Arguments of calls -/

namespace Node

/-- The integer that a node stands for. -/
def integer (var : Int) : Node → Except Fault Int
  | mk .integer (.int value) _ => .ok value
  | mk .percent _ _ => .ok var
  | mk kind _ _ => .error (.notExpression kind)

/-- The integers that some nodes stand for. -/
def integers (var : Int) : List Node → Except Fault (List Int)
  | [] => .ok []
  | n :: rest => do
    let first ← n.integer var
    let more ← integers var rest
    .ok (first :: more)

/-- The set that a node stands for. -/
def intSet (var : Int) : Node → Except Fault IntSet
  | mk .set _ elements => (integers var elements).map .of
  | mk kind _ _ => .error (.notExpression kind)

/-- The first child of a node. -/
def operand (n : Node) : Except Fault Node :=
  match n.children with
  | first :: _ => .ok first
  | [] => .error .missingChild

/-- The text that a node carries. -/
def text (n : Node) : Except Fault String :=
  match textOfValue? n.value with
  | some s => .ok s
  | none => .error (.notStatement n.kind)

end Node

/-! ## Runs -/

/-- Where a run by name stands: the trees to be done, the machine, the input that is left, and the
text that was written. -/
structure TreeRun where
  todo : List Node
  machine : Machine
  input : List Char
  output : List Char

namespace TreeRun

/-- Does the next call, which may go wrong; stands still where nothing is left to be done. -/
def step (r : TreeRun) : Except Fault TreeRun :=
  let m := r.machine
  match r.todo with
  | [] => .ok r
  | n :: rest =>
    match n.kind with
    | .flip => do
      let x ← (← n.operand).integer m.var
      .ok { r with todo := rest, machine := m.flip x }
    | .printChar => do
      let written ← n.text
      .ok { r with todo := rest, output := r.output ++ written.toList }
    | .setOperation => do
      let set ← (← n.operand).intSet m.var
      let machine ← m.applyNamed (← n.text) set
      .ok { r with todo := rest, machine }
    | .loop => do
      let set ← (← n.guard).intSet m.var
      let answer ← m.holdsNamed (← n.text) set
      .ok { r with todo := if answer then n.body ++ n :: rest else rest }
    | .charTest => do
      let answer := m.holdsText (some (← n.text))
      .ok { r with todo := if answer then n.body ++ rest else rest }
    | .complement => .ok { r with todo := rest, machine := m.complement }
    | .increment => .ok { r with todo := rest, machine := m.increment }
    | .readChar => .ok { r with todo := rest, machine := m.read r.input, input := r.input.drop 1 }
    | kind => .error (.notStatement kind)

/-- Does at most some number of calls. -/
def run : Nat → TreeRun → Except Fault TreeRun
  | 0, r => .ok r
  | calls + 1, r => do run calls (← r.step)

end TreeRun

/-! ## Arguments from trees of programs -/

section

variable (var : Int)

@[simp] theorem Expr.integer_toNode (e : Expr) : e.toNode.integer var = .ok (e.eval var) := by
  cases e <;> rfl

@[simp] theorem integers_map_toNode (es : List Expr) :
    Node.integers var (es.map Expr.toNode) = .ok (es.map (·.eval var)) := by
  induction es with
  | nil => rfl
  | cons e es ih =>
    rw [List.map_cons, Node.integers, e.integer_toNode, ih]
    rfl

theorem intSet_setToNode (es : List Expr) :
    (setToNode es).intSet var = .ok (evalSet var es) := by
  rw [setToNode, Node.intSet, integers_map_toNode]
  rfl

/-- What is done with the set of a tree is done with the set of its elements. -/
theorem intSet_setToNode_bind (es : List Expr) {α : Type} (next : IntSet → Except Fault α) :
    (do next (← (setToNode es).intSet var)) = next (evalSet var es) := by
  rw [intSet_setToNode]
  rfl

end

namespace Machine

theorem applyNamed_name (m : Machine) (o : SetOperator) (operand : IntSet) :
    m.applyNamed o.name operand = .ok (m.apply o operand) := by
  rw [applyNamed, SetOperator.ofName?_name]

theorem holdsNamed_name (m : Machine) (p : Predicate) (guard : IntSet) :
    m.holdsNamed p.name guard = .ok (m.holds p guard) := by
  rw [holdsNamed, Predicate.ofName?_name]

/-- A text of one character is asked for as that character. -/
@[simp] theorem holdsText_singleton (m : Machine) (c : Char) :
    m.holdsText (some (String.ofList [c])) = m.holdsChar c := by
  rw [Bool.eq_iff_iff, holdsText, holdsChar, beq_iff_eq, beq_iff_eq, Option.map_eq_some_iff]
  constructor
  · rintro ⟨d, hregister, htext⟩
    obtain rfl : d = c := by simpa using htext
    exact hregister
  · exact fun hregister => ⟨c, hregister, rfl⟩

end Machine

@[simp] theorem toNodes_append (ss more : List Statement) :
    toNodes (ss ++ more) = toNodes ss ++ toNodes more := by
  induction ss with
  | nil => rfl
  | cons s ss ih => exact congrArg (s.toNode :: ·) ih

/-! ## Steps on trees of programs -/

namespace RunState

/-- A run of the machine as a run by name, after some text. -/
def byName (r : RunState) (output : List Char) : TreeRun :=
  ⟨toNodes r.todo, r.machine, r.input, output⟩

section

variable (rest : List Statement) (m : Machine) (input output : List Char)

theorem step_byName_flip (e : Expr) :
    (byName ⟨.flip e :: rest, m, input⟩ output).step =
      .ok (byName ⟨rest, m.flip (e.eval m.var), input⟩ output) := by
  show (do
    let x ← e.toNode.integer m.var
    Except.ok (TreeRun.mk (toNodes rest) (m.flip x) input output)) = _
  rw [e.integer_toNode]
  rfl

theorem step_byName_put (c : Char) :
    (byName ⟨.put c :: rest, m, input⟩ output).step =
      .ok (byName ⟨rest, m, input⟩ (output ++ [c])) := by
  show Except.ok (TreeRun.mk (toNodes rest) m input (output ++ (String.ofList [c]).toList)) = _
  rw [String.toList_ofList]
  rfl

theorem step_byName_apply (o : SetOperator) (es : List Expr) :
    (byName ⟨.apply o es :: rest, m, input⟩ output).step =
      .ok (byName ⟨rest, m.apply o (evalSet m.var es), input⟩ output) := by
  show (do
    let set ← (setToNode es).intSet m.var
    let machine ← m.applyNamed o.name set
    Except.ok (byName ⟨rest, machine, input⟩ output)) = _
  rw [intSet_setToNode_bind, m.applyNamed_name]
  rfl

theorem step_byName_loop (p : Predicate) (es : List Expr) (body : List Statement) :
    (byName ⟨.loop p es body :: rest, m, input⟩ output).step =
      .ok (byName ⟨if m.holds p (evalSet m.var es) then body ++ .loop p es body :: rest else rest,
        m, input⟩ output) := by
  -- the body is put in front of the trees, with the loop itself behind it
  show (do
    let set ← (setToNode es).intSet m.var
    let answer ← m.holdsNamed p.name set
    Except.ok (TreeRun.mk (if answer then toNodes body ++ toNodes (.loop p es body :: rest)
      else toNodes rest) m input output)) = _
  rw [intSet_setToNode_bind, m.holdsNamed_name, byName, apply_ite toNodes, toNodes_append]
  rfl

theorem step_byName_test (c : Char) (body : List Statement) :
    (byName ⟨.test c body :: rest, m, input⟩ output).step =
      .ok (byName ⟨if m.holdsChar c then body ++ rest else rest, m, input⟩ output) := by
  rw [← m.holdsText_singleton, byName, byName, apply_ite toNodes, toNodes_append]
  rfl

end

variable {r next : RunState} {call : Call}

/-- No step on the trees of statements goes wrong: it is the step of the machine. -/
theorem step_byName (h : r.step = some (call, next)) (output : List Char) :
    (r.byName output).step = .ok (next.byName (output ++ call.written)) := by
  have hsilent (next : RunState) :
      (.ok (next.byName output) : Except Fault TreeRun) = .ok (next.byName (output ++ [])) := by
    rw [List.append_nil]
  obtain ⟨todo, m, input⟩ := r
  cases todo with
  | nil => cases h
  | cons s rest =>
    cases s <;> obtain ⟨rfl, rfl⟩ := Prod.mk.inj (Option.some.inj h)
    case flip e => exact (step_byName_flip rest m input output e).trans (hsilent _)
    case put c => exact step_byName_put rest m input output c
    case apply o es => exact (step_byName_apply rest m input output o es).trans (hsilent _)
    case loop p es body => exact (step_byName_loop rest m input output p es body).trans (hsilent _)
    case test c body => exact (step_byName_test rest m input output c body).trans (hsilent _)
    case complement => exact hsilent ⟨rest, m.complement, input⟩
    case increment => exact hsilent ⟨rest, m.increment, input⟩
    case read => exact hsilent ⟨rest, m.read input, input.drop 1⟩

/-- Where the machine has halted, a run by name stands still. -/
theorem step_byName_of_none (h : r.step = none) (output : List Char) :
    (r.byName output).step = .ok (r.byName output) := by
  obtain ⟨todo, m, input⟩ := r
  obtain rfl := step_eq_none_iff.1 h
  rfl

/-! ## Runs of trees of programs -/

theorem trace_of_none (h : r.step = none) (calls : Nat) : r.trace calls = [] := by
  cases calls with
  | zero => rfl
  | succ calls => rw [trace, h]

/-- No run on the trees of statements goes wrong, whatever its length: it comes to where the calls
of the machine come to. -/
theorem run_byName (calls : Nat) (r : RunState) (output : List Char) :
    (r.byName output).run calls = .ok ((r.after (r.trace calls)).byName
      (output ++ (r.trace calls).flatMap fun c => c.1.written)) := by
  induction calls generalizing r output with
  | zero => simp [TreeRun.run, trace, after]
  | succ calls ih =>
    rw [trace]
    cases hstep : r.step with
    | none =>
      have hstill := ih r output
      rw [trace_of_none hstep] at hstill
      show (r.byName output).step >>= TreeRun.run calls = _
      rw [step_byName_of_none hstep]
      exact hstill
    | some result =>
      obtain ⟨call, next⟩ := result
      show (r.byName output).step >>= TreeRun.run calls = _
      rw [step_byName hstep]
      show (next.byName (output ++ call.written)).run calls = _
      rw [ih, after_cons, List.flatMap_cons, List.append_assoc]

end RunState

end SetLang
