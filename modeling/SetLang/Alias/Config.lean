import SetLang.Fault
import SetLang.Json.Value

/-!
# `Config`: configurations of aliases

A configuration is a value of lists, dictionaries and scalars. A dictionary binds groups of aliases
to symbols; its keys are scalars or groups, and keys that are equal are one key. Where a scalar
stands for a name it is shown as text. Texts may hold lone halves; there are no unordered sets, which
JSON cannot name.
-/

namespace SetLang

/-- A configuration value. A `group` is a list that serves as a key. -/
inductive Config where
  | null
  | bool (value : Bool)
  | int (value : Int)
  | float (value : Binary64)
  | text (value : WideText)
  | list (items : List Config)
  | group (items : List Config)
  | dict (entries : List (Config × Config))

namespace Config

/-! ## Text -/

mutual

/-- A value as it shows inside another one: texts are quoted. `none` for an integer past the limit
of decimal text. -/
def shown? : Config → Option String
  | null => some "None"
  | bool value => some (if value then "True" else "False")
  | int value => Integer.decimal? value
  | float value => some value.text
  | text value => some value.quoted
  | list items => (shownItems? items).map fun shown => "[" ++ Text.joinWith ", " shown ++ "]"
  | group items =>
    (shownItems? items).map fun
      | [only] => "(" ++ only ++ ",)"
      | shown => "(" ++ Text.joinWith ", " shown ++ ")"
  | dict entries =>
    (shownEntries? entries).map fun shown => "\x7b" ++ Text.joinWith ", " shown ++ "\x7d"

/-- The items of a value as they show. -/
def shownItems? : List Config → Option (List String)
  | [] => some []
  | item :: rest =>
    match shown? item, shownItems? rest with
    | some first, some more => some (first :: more)
    | _, _ => none

/-- The entries of a dictionary as they show. -/
def shownEntries? : List (Config × Config) → Option (List String)
  | [] => some []
  | (key, value) :: rest =>
    match shown? key, shown? value, shownEntries? rest with
    | some k, some v, some more => some ((k ++ ": " ++ v) :: more)
    | _, _, _ => none

end

/-- A value as a name: a text stands for itself. -/
def nameText (config : Config) : Except Fault WideText :=
  match config with
  | text value => .ok value
  | other =>
    match other.shown? with
    | some shown => .ok (.ofString shown)
    | none => .error .digitLimit

/-! ## Keys -/

/-- The number that a scalar equals, if it is an integer or a truth value or a whole float. -/
def number? : Config → Option Int
  | bool value => some (if value then 1 else 0)
  | int value => some value
  | float value => value.toInt?
  | _ => none

mutual

/-- Whether two values are the same key: numbers are compared by value. -/
def sameKey : Config → Config → Bool
  | null, null => true
  | text x, text y => x == y
  | group xs, group ys => sameKeys xs ys
  | float x, float y => x.sameNumber y
  | x, y =>
    match number? x, number? y with
    | some m, some n => m == n
    | _, _ => false

/-- Whether two groups have the same keys one by one. -/
def sameKeys : List Config → List Config → Bool
  | [], [] => true
  | x :: xs, y :: ys => sameKey x y && sameKeys xs ys
  | _, _ => false

end

/-- The word for a type that cannot be a key. -/
def unhashable? : Config → Option String
  | list _ => some "list"
  | dict _ => some "dict"
  | group items => unhashableIn? items
  | _ => none
where
  /-- The first such word among the items of a group. -/
  unhashableIn? : List Config → Option String
    | [] => none
    | item :: rest => (unhashable? item).or (unhashableIn? rest)

/-- Adds an entry; an equal key keeps its position and takes the new value. -/
def putEntry (key value : Config) : List (Config × Config) → List (Config × Config)
  | [] => [(key, value)]
  | (other, old) :: rest =>
    if sameKey other key then (other, value) :: rest else (other, old) :: putEntry key value rest

/-- The dictionary that some entries make when they are added in order. -/
def dictOf (entries : List (Config × Config)) : Config :=
  dict (entries.foldl (fun done (key, value) => putEntry key value done) [])

mutual

/-- A JSON value as a configuration. -/
def ofJson : Json WideText → Config
  | .null => null
  | .bool value => bool value
  | .int value => int value
  | .float value => float value
  | .string value => text value
  | .array items => list (ofItems items)
  | .object members => dict (ofMembers members)

/-- The items of a JSON array. -/
def ofItems : List (Json WideText) → List Config
  | [] => []
  | item :: rest => ofJson item :: ofItems rest

/-- The members of a JSON object. -/
def ofMembers : List (WideText × Json WideText) → List (Config × Config)
  | [] => []
  | (name, value) :: rest => (text name, ofJson value) :: ofMembers rest

end

mutual

/-- The aliases that a group lists: a text is one alias, a list or group has those of its items, and a
dictionary gives the names of its keys. -/
def listed : Config → Except Fault (List WideText)
  | text value => .ok [value]
  | list items => listedOf items
  | group items => listedOf items
  | dict entries => entries.mapM fun (key, _) => key.nameText
  | _ => .ok []

/-- The aliases that several groups list. -/
def listedOf : List Config → Except Fault (List WideText)
  | [] => .ok []
  | item :: rest => do
    let first ← listed item
    let more ← listedOf rest
    .ok (first ++ more)

end

/-- The aliases of a group as they show. -/
def aliases (config : Config) : Except Fault (List String) :=
  config.listed.map fun words => words.map WideText.shown

end Config

end SetLang
