import SetLang.Token.Lexer

/-!
# `Feed`: tokens on demand

A feed hands out tokens one by one to a reader that looks one token ahead. It comes from a scan,
where a fault takes the place of a token and the tokens after it still follow, or from a list of
tokens. Once it is used up it hands out its end mark for ever.
-/

namespace SetLang

/-- What remains to be handed out, and the end mark that follows. -/
structure Feed where
  items : List (Except Fault Token)
  last : Token
  last_kind : last.kind = .endOfText

namespace Feed

/-- A feed of what a cursor has ahead. -/
def ofCursor (resolve : Resolver) (c : Cursor) : Feed :=
  let scan := Scan.ofCursor resolve c
  ⟨scan.results.map (·.1), .endAt scan.final.place, rfl⟩

/-- A feed of the tokens of a text. -/
def ofText (resolve : Resolver) (text : List Char) : Feed :=
  ofCursor resolve (.start text)

/-- A feed of a list of tokens; an end mark is added to a list that has none at its end. -/
def ofTokens (tokens : List Token) : Feed :=
  match tokens.getLast? with
  | some last =>
    if hk : last.kind = .endOfText then ⟨tokens.dropLast.map .ok, last, hk⟩
    else ⟨tokens.map .ok, .endAt ⟨0, 0⟩, rfl⟩
  | none => ⟨[], .endAt ⟨0, 0⟩, rfl⟩

/-- Hands out one token. -/
def next (feed : Feed) : Except Fault Token × Feed :=
  match feed.items with
  | [] => (.ok feed.last, feed)
  | item :: rest => (item, { feed with items := rest })

/-- How many tokens remain, with the end mark. -/
def size (feed : Feed) : Nat :=
  feed.items.length + 1

end Feed

end SetLang
