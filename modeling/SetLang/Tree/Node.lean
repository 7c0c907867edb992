import SetLang.Fault
import SetLang.Json.Value

/-!
# `Node`: syntax trees

A node has a kind, a value and children. The kind says what the value and the children are: the
statements of a program, the elements of a set, the expression of a flip, the operand of a set
operation, the guard set and then the body of a loop, the body of a character test.
-/

namespace SetLang

/-- A node of a syntax tree. -/
inductive Node where
  | mk (kind : NodeKind) (value : Value) (children : List Node)

namespace Node

/-- The kind of a node. -/
def kind : Node → NodeKind
  | mk kind _ _ => kind

/-- The value of a node. -/
def value : Node → Value
  | mk _ value _ => value

/-- The children of a node. -/
def children : Node → List Node
  | mk _ _ children => children

/-- A node without value and children. -/
def leaf (kind : NodeKind) : Node :=
  mk kind .absent []

mutual

/-- Whether two trees are equal. -/
def same : Node → Node → Bool
  | mk k v cs, mk k' v' cs' => decide (k = k') && decide (v = v') && sameAll cs cs'

/-- Whether two lists of trees are equal. -/
def sameAll : List Node → List Node → Bool
  | [], [] => true
  | x :: xs, y :: ys => same x y && sameAll xs ys
  | _, _ => false

end

instance : BEq Node := ⟨same⟩

mutual

/-- A node and everything below it, in the order of the text. -/
def walk : Node → List Node
  | mk k v cs => mk k v cs :: walkAll cs

/-- Several trees with everything below them, in the order of the text. -/
def walkAll : List Node → List Node
  | [] => []
  | n :: rest => walk n ++ walkAll rest

end

/-- The guard set of a loop. -/
def guard (n : Node) : Except Fault Node :=
  match n.kind, n.children with
  | .loop, guard :: _ => .ok guard
  | .loop, [] => .error .missingChild
  | kind, _ => .error (.noGuard kind)

/-- The statements inside a node: what follows the guard of a loop, and all children otherwise. -/
def body (n : Node) : List Node :=
  match n.kind with
  | .loop => n.children.drop 1
  | _ => n.children

mutual

/-- A node as messages show it, with at most three children; `none` for an integer past the limit of
decimal text. -/
def shown? : Node → Option String
  | mk kind value children =>
    match value.shown?, shownFirst? 3 children with
    | some v, some cs =>
      let valuePart := if value = .absent then [] else ["value=" ++ v]
      let more := if children.length ≤ 3 then [] else ["..."]
      let childPart :=
        if children.isEmpty then [] else ["children=[" ++ Text.joinWith ", " (cs ++ more) ++ "]"]
      some ("ASTNode(" ++ Text.joinWith ", " (kind.name :: valuePart ++ childPart) ++ ")")
    | _, _ => none

/-- The first few of some nodes as messages show them. -/
def shownFirst? : Nat → List Node → Option (List String)
  | 0, _ => some []
  | _, [] => some []
  | count + 1, n :: rest =>
    match shown? n, shownFirst? count rest with
    | some first, some more => some (first :: more)
    | _, _ => none

end

/-- The value of a node in JSON. -/
def jsonOfValue : Value → Json
  | .absent => .null
  | .int n => .int n
  | .text s => .string s

mutual

/-- A tree in JSON: an object of kind, value and children for each node. -/
def toJson : Node → Json
  | mk kind value children =>
    .object [("kind", .string kind.name), ("value", jsonOfValue value),
      ("children", .array (toJsonAll children))]

/-- Several trees in JSON. -/
def toJsonAll : List Node → List Json
  | [] => []
  | n :: rest => toJson n :: toJsonAll rest

end

end Node

end SetLang
