import SetLang.Token.Lexer

/-!
# `SignedCursor`: a position that may be negative

A negative position stands before the front of a text. From there the text is read as if its last
characters stood before it: a position of `-n` comes before the last `n` characters and then the text
itself. What stands before the front can be taken but not looked at, so each of its characters is an
unknown token.
-/

namespace SetLang

/-- A position in a text, or some characters before its front: `before text n place` is `n + 1`
characters before it. -/
inductive SignedCursor where
  | before (text : List Char) (distance : Nat) (place : Text.Place)
  | within (cursor : Cursor)

namespace SignedCursor

/-- A cursor at a position of a text, which the caller says is at some place. -/
def startAt (text : List Char) (position : Int) (place : Text.Place) : SignedCursor :=
  match position with
  | .ofNat n => .within (.startAt text n place)
  | .negSucc n => .before text n place

/-- The position of a cursor. -/
def position : SignedCursor → Int
  | before _ distance _ => .negSucc distance
  | within c => c.position

/-- The place of a cursor. -/
def place : SignedCursor → Text.Place
  | before _ _ place => place
  | within c => c.place

/-- Whether no character is left to be taken. Before the front there is always one to be asked for. -/
def atEnd : SignedCursor → Bool
  | before _ _ _ => false
  | within c => c.atEnd

/-- The character at an offset from the position, if the text has one there. -/
def peek? (c : SignedCursor) (offset : Int) : Option Char :=
  match c with
  | before text distance _ =>
    let index := Int.negSucc distance + offset
    if index < 0 then none else text[index.toNat]?
  | within c => c.peek? offset

/-- The last characters of a text, one more than the distance; `none` if it has fewer. -/
def lead? (text : List Char) (distance : Nat) : Option (List Char) :=
  if distance < text.length then some (text.drop (text.length - (distance + 1))) else none

/-- Moves over some of the characters, given those before the front. -/
def passFrom (text lead : List Char) (place : Text.Place) (count : Nat) : SignedCursor :=
  if count < lead.length then
    .before text (lead.length - count - 1) (place.afterAll (lead.take count))
  else .within ((Cursor.startAt text 0 (place.afterAll lead)).pass (count - lead.length))

/-- Takes the next character. -/
def next (c : SignedCursor) : Except Fault Char × SignedCursor :=
  match c with
  | before text distance place =>
    match lead? text distance with
    | some (x :: lead) => (.ok x, passFrom text (x :: lead) place 1)
    | _ => (.error .beforeFront, c)
  | within c => (c.next.1, .within c.next.2)

/-! ## Tokens -/

/-- Moves over the gap ahead; before the front there is none. -/
def skipGap : SignedCursor → SignedCursor
  | before text distance place => .before text distance place
  | within c => .within c.skipGap

/-- Moves up to the end of the line. What stands before the front ends no line. -/
def skipComment (c : SignedCursor) : Except Fault Unit × SignedCursor :=
  match c with
  | before text distance place =>
    match lead? text distance with
    | some lead => (.ok (), .within (Cursor.startAt text 0 (place.afterAll lead)).skipComment)
    | none => (.error .beforeFront, c)
  | within c => (.ok (), .within c.skipComment)

/-- Takes the longest fixed spelling ahead, if there is one. -/
def spelling? : SignedCursor → Option (Token × SignedCursor)
  | before _ _ _ => none
  | within c => c.spelling?.map fun (token, c) => (token, .within c)

/-- Closes a literal after its value, where some characters of the text stand before the front: a
closing quote among them is not seen. -/
def closeLiteralFrom (unseen : Nat) (quote : String) (value : Char) (taken : Nat)
    (ahead : List Char) : Nat × LiteralEnd :=
  if taken < unseen then
    if quote = "" then (taken + 1, .closed value) else (taken, .failed .unterminatedLiteral)
  else closeLiteral quote value taken ahead

/-- Takes a character literal with a given quote. -/
def charLiteral (c : SignedCursor) (quote : String) (kind : TokenKind) :
    Except Fault Token × SignedCursor :=
  match c with
  | before text distance place =>
    match lead? text distance with
    | none => (.error .beforeFront, c)
    | some lead =>
      let (taken, ending) :=
        match literalBody quote (lead ++ text) with
        | (taken, .ok value) =>
          closeLiteralFrom lead.length quote value taken ((lead ++ text).drop taken)
        | (taken, .error ending) => (taken, ending)
      let pastEnd := (Cursor.startAt text text.length (place.afterAll (lead ++ text))).pastEnd
      (ending.result kind place pastEnd, passFrom text lead place taken)
  | within c => let (result, c) := c.charLiteral quote kind; (result, .within c)

/-- Takes the next token, which is an end mark at the end of the text. -/
def token (c : SignedCursor) (resolve : Resolver) : Except Fault Token × SignedCursor :=
  match c with
  | before _ _ place => let (result, after) := c.next; (result.map (.ofUnknown · place), after)
  | within c => let (result, c) := c.token resolve; (result, .within c)

/-- The unknown tokens of some characters. -/
def unknownTokens (place : Text.Place) : List Char → List Token
  | [] => []
  | x :: rest => .ofUnknown x place :: unknownTokens (place.after x) rest

/-- All tokens from a cursor on with the end mark, or the first fault, and the cursor after them. -/
def tokens (c : SignedCursor) (resolve : Resolver) : Except Fault (List Token) × SignedCursor :=
  match c with
  | before text distance place =>
    match lead? text distance with
    | none => (.error .beforeFront, c)
    | some lead =>
      let (result, after) :=
        (Scan.ofCursor resolve (.startAt text 0 (place.afterAll lead))).tokens
      (result.map (unknownTokens place lead ++ ·), .within after)
  | within c => let (result, c) := (Scan.ofCursor resolve c).tokens; (result, .within c)

end SignedCursor

end SetLang
