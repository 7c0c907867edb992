import SetLang.Number.Binary64

/-!
# JSON values

A JSON value keeps integers apart from floating-point numbers, and its objects list their members
in order, each name once. Its strings and names are texts of some type: those that are written are
texts of characters, and those that are read may hold lone halves of pairs.
-/

namespace SetLang

/-- A JSON value whose strings and names are texts of a type. -/
inductive Json (Text : Type := String) where
  | null
  | bool (value : Bool)
  | int (value : Int)
  | float (value : Binary64)
  | string (value : Text)
  | array (items : List (Json Text))
  | object (members : List (Text × Json Text))

namespace Json

variable {Text Text' : Type}

/-- Adds a member; one of the same name keeps its position and takes the new value. -/
def putMember [DecidableEq Text] (name : Text) (value : Json Text) :
    List (Text × Json Text) → List (Text × Json Text)
  | [] => [(name, value)]
  | (other, old) :: rest =>
    if other = name then (name, value) :: rest else (other, old) :: putMember name value rest

/-- The members that some name-value pairs leave when they are added in order. -/
def membersOf [DecidableEq Text] (pairs : List (Text × Json Text)) : List (Text × Json Text) :=
  pairs.foldl (fun members (name, value) => putMember name value members) []

/-- The value of a member, if the value is an object that has it. -/
def get? [BEq Text] (name : Text) : Json Text → Option (Json Text)
  | .object members => members.lookup name
  | _ => none

mutual

/-- A value with other texts in the place of its strings and names. -/
def map (f : Text → Text') : Json Text → Json Text'
  | .null => .null
  | .bool value => .bool value
  | .int value => .int value
  | .float value => .float value
  | .string value => .string (f value)
  | .array items => .array (mapItems f items)
  | .object members => .object (mapMembers f members)

/-- The items of an array with other texts. -/
def mapItems (f : Text → Text') : List (Json Text) → List (Json Text')
  | [] => []
  | item :: rest => map f item :: mapItems f rest

/-- The members of an object with other texts. -/
def mapMembers (f : Text → Text') : List (Text × Json Text) → List (Text' × Json Text')
  | [] => []
  | (name, value) :: rest => (f name, map f value) :: mapMembers f rest

end

end Json

end SetLang
