import SetLang.Alias.Config
import SetLang.Token.Lexer

/-!
# `AliasTable`: words that stand for tokens

A table binds words to canonical kinds of tokens. A configuration extends it as a whole or not at
all: every symbol has to be canonical, every alias a word that is no fixed spelling, and no alias may
come to stand for two kinds.
-/

namespace SetLang

/-- Words with the kinds they stand for, in the order in which they were bound. -/
abbrev Bindings := List (String × TokenKind)

/-- Binds a word; a word that is bound keeps its position. -/
def Bindings.put (word : String) (kind : TokenKind) : Bindings → Bindings
  | [] => [(word, kind)]
  | (other, old) :: rest =>
    if other = word then (word, kind) :: rest else (other, old) :: Bindings.put word kind rest

/-- Binds several words in order. -/
def Bindings.putAll (bindings new : Bindings) : Bindings :=
  new.foldl (fun done (word, kind) => Bindings.put word kind done) bindings

/-- Aliases with the kinds that are asked for them, in order. -/
abbrev WideBindings := List (WideText × TokenKind)

/-- Whether two lists bind the same words to the same kinds. -/
def Bindings.agree (xs ys : Bindings) : Bool :=
  xs.length == ys.length && xs.all fun (word, kind) => ys.lookup word == some kind

/-- The words that stand for canonical kinds by default. -/
def canonicalWords : Bindings := [
  ("var", .percent), ("empty", .emptySet), ("flip", .asterisk),
  ("subset", .predicate .subset), ("psubset", .predicate .properSubset),
  ("nsubset", .predicate .notSubset), ("superset", .predicate .superset),
  ("psuperset", .predicate .properSuperset), ("nsuperset", .predicate .notSuperset),
  ("equal", .predicate .equal), ("union", .operator .union), ("inter", .operator .intersection),
  ("ldiff", .operator .leftDifference), ("rdiff", .operator .rightDifference),
  ("complement", .complement), ("inc", .colon), ("read", .tilde)]

/-- A table of aliases: the bindings by which words are resolved, and those that reports show. -/
structure AliasTable where
  active : Bindings
  reported : Bindings
deriving DecidableEq, Repr

namespace AliasTable

/-- The table without aliases. -/
def empty : AliasTable := ⟨[], []⟩

/-- The table of the default words. -/
def canonical : AliasTable := ⟨canonicalWords, canonicalWords⟩

/-- The kind that a word stands for. -/
def kind? (table : AliasTable) (word : String) : Option TokenKind :=
  table.active.lookup word

/-- The token of a word at a place, if the word is an alias. -/
def token? (table : AliasTable) (word : String) (place : Text.Place) : Option Token :=
  (table.kind? word).map (⟨·, .text word, place⟩)

/-! ## Configuration -/

/-- The canonical kind that a configuration names by a symbol. -/
def symbol (config : Config) : Except Fault TokenKind :=
  match config.unhashable? with
  | some typeName => .error (.unhashable typeName)
  | none => do
    let known :=
      match config with
      | .text name => TokenKind.canonical.find? fun kind => WideText.ofString kind.name == name
      | _ => none
    match known with
    | some kind => .ok kind
    | none => .error (.aliases (.unknownSymbol (← config.nameText)))

/-- The pairs that the entries of a dictionary ask for, in order. -/
def entryPairs : List (Config × Config) → Except Fault WideBindings
  | [] => .ok []
  | (group, name) :: rest => do
    let kind ← symbol name
    let words ← group.listed
    let more ← entryPairs rest
    .ok (words.map (·, kind) ++ more)

/-- The pairs that the items of a list ask for, with the kinds of their slots, in order. -/
def slotPairs : List Config → List TokenKind → Except Fault WideBindings
  | item :: rest, kind :: kinds => do
    let words ← item.listed
    let more ← slotPairs rest kinds
    .ok (words.map (·, kind) ++ more)
  | _, _ => .ok []

/-- The pairs that a configuration asks for, in order. -/
def pairs : Config → Except Fault WideBindings
  | .dict entries => entryPairs entries
  | .list items =>
    if TokenKind.canonical.length < items.length then .error (.aliases .tooManyEntries)
    else slotPairs items TokenKind.canonical
  | _ => .error (.aliases .notConfiguration)

/-- The word that an alias is; an alias that is no word or is a fixed spelling is refused. -/
def checkAlias (given : WideText) : Except Fault String :=
  match given.string?.filter isWord with
  | none => .error (.aliases (.notWord given))
  | some word =>
    if (spelled? word).isSome then .error (.aliases (.shadowsKeyword word))
    else .ok word

/-- Goes through pairs in order, with the new bindings and the collisions so far. A pair collides if
its alias already stands for another kind; such a pair binds nothing. -/
def accept (old : Bindings) (new : Bindings) (collisions : List Collision) :
    WideBindings → Except Fault (Bindings × List Collision)
  | [] => .ok (new, collisions)
  | (given, kind) :: rest => do
    let word ← checkAlias given
    match (new.lookup word).or (old.lookup word) with
    | some bound =>
      if bound = kind then accept old (new.put word kind) collisions rest
      else accept old new (collisions ++ [⟨word, bound, kind⟩]) rest
    | none => accept old (new.put word kind) collisions rest

/-- Extends a table by a configuration, or refuses it. -/
def configure (table : AliasTable) (config : Config) : Except Fault AliasTable := do
  let bindings ← pairs config
  let (new, collisions) ← accept table.active [] [] bindings
  if collisions.isEmpty then .ok ⟨table.active.putAll new, table.reported.putAll new⟩
  else .error (.aliases (.collisions collisions))

/-! ## Reports -/

/-- One alias with what it stands for. -/
def reportLine (word : String) (symbol : String) : String :=
  Text.padLeft 12 word ++ " → " ++ symbol

/-- Bindings in the order of their words. -/
def sorted (bindings : Bindings) : Bindings :=
  bindings.mergeSort fun x y => Text.textLe x.1 y.1

/-- The table as text, a line for each alias in the order of the words; a verbose report adds the
slot of each kind. -/
def report (table : AliasTable) (verbose : Bool) : String :=
  Text.joinWith "\n" <| (sorted table.reported).map fun (word, kind) =>
    if verbose then
      reportLine word (Text.padRight 16 kind.name) ++ " (slot " ++
        Integer.decimal (TokenKind.canonical.idxOf kind) ++ ")"
    else reportLine word kind.name

/-- The bindings that go beyond the default words. -/
def additions (table : AliasTable) : Bindings :=
  table.active.filter fun (word, kind) => canonicalWords.lookup word != some kind

end AliasTable

end SetLang
