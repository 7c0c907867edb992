import SetLang.Token.Feed
import SetLang.Tree.Node

/-!
# Parsing

A program is a sequence of statements:

* `*` and an expression, a quoted character, a set operator and a set, or one of the marks `c`, `::`,
  `;` and `~`;
* a predicate, a set, and statements between `[` and `]`;
* a tested character, and statements between `/` and `\`.

A set is the empty-set mark or expressions between braces, set apart by commas; an expression is an
integer or `%`.

The parser is a machine with a stack. Its state is the goal that comes next and the unfinished nodes
around it, innermost first. Every token either moves the machine on, or ends the parse, or is
rejected where it stands. A rejected token stays the current one. The stack may grow without a bound:
how deep statements nest is no reason to refuse them here.
-/

namespace SetLang

/-! ## States -/

/-- What encloses a sequence of statements. -/
inductive Block where
  /-- The whole text. -/
  | program
  /-- Statements up to a token of some kind, which is not part of them. -/
  | upTo (stop : TokenKind)
  /-- The body of a loop with its predicate and guard. -/
  | loop (tag : String) (guard : Node)
  /-- The body of a character test. -/
  | test (value : Value)

/-- What is demanded next. Finished nodes are listed last first. -/
inductive Goal where
  | statement
  | statements (block : Block) (done : List Node)
  | expression
  | setLiteral
  | firstElement
  | moreElements (done : List Node)
  | openLoop (tag : String) (guard : Node)
  | openTest (value : Value)

/-- An unfinished node that waits for one of its children. -/
inductive Frame where
  | block (block : Block) (done : List Node)
  | flip
  | setOperation (tag : String)
  | guard (tag : String)
  | elements (done : List Node)

/-- A state of the parser: a goal, and the unfinished nodes that wait for it. -/
structure ParseState where
  goal : Goal
  frames : List Frame

/-- How a parse ends at a token: the token is the last one of a node, or it follows a node, or it is
not what is demanded. -/
inductive Verdict where
  | finish (node : Node)
  | stop (node : Node)
  | reject (demand : Demand)

/-- What a token does to a state. -/
inductive Move where
  | shift (next : ParseState)
  | verdict (verdict : Verdict)

namespace Node

/-- A program of statements that are listed last first. -/
def programOf (done : List Node) : Node :=
  mk .program .absent done.reverse

/-- A set of elements that are listed last first. -/
def setOf (done : List Node) : Node :=
  mk .set .absent done.reverse

/-- A loop with a body that is listed last first. -/
def loopOf (tag : String) (guard : Node) (done : List Node) : Node :=
  mk .loop (.text tag) (guard :: done.reverse)

/-- A character test with a body that is listed last first. -/
def testOf (value : Value) (done : List Node) : Node :=
  mk .charTest value done.reverse

end Node

/-- Gives a finished node to the innermost node that waits for one. -/
def giveNode (node : Node) : List Frame → Move
  | [] => .verdict (.finish node)
  | .block block done :: frames => .shift ⟨.statements block (node :: done), frames⟩
  | .flip :: frames => giveNode (.mk .flip .absent [node]) frames
  | .setOperation tag :: frames => giveNode (.mk .setOperation (.text tag) [node]) frames
  | .guard tag :: frames => .shift ⟨.openLoop tag node, frames⟩
  | .elements done :: frames => .shift ⟨.moreElements (node :: done), frames⟩

/-! ## Moves -/

/-- The first token of a statement. -/
def statementMove (t : Token) (frames : List Frame) : Move :=
  match t.kind with
  | .asterisk => .shift ⟨.expression, .flip :: frames⟩
  | .quotedChar => giveNode (.mk .printChar t.value []) frames
  | .predicate p => .shift ⟨.setLiteral, .guard p.name :: frames⟩
  | .operator o => .shift ⟨.setLiteral, .setOperation o.name :: frames⟩
  | .complement => giveNode (.leaf .complement) frames
  | .colon => giveNode (.leaf .increment) frames
  | .semicolon => giveNode (.leaf .increment) frames
  | .tilde => giveNode (.leaf .readChar) frames
  | .testedChar => .shift ⟨.openTest t.value, frames⟩
  | _ => .verdict (.reject .statement)

/-- The token of an expression. -/
def expressionMove (t : Token) (frames : List Frame) : Move :=
  match t.kind with
  | .integer => giveNode (.mk .integer t.value []) frames
  | .percent => giveNode (.leaf .percent) frames
  | _ => .verdict (.reject .expression)

/-- The node that a block makes when a token of some kind closes it. -/
def Block.close? (block : Block) (done : List Node) (kind : TokenKind) : Option Node :=
  match block, kind with
  | .loop tag guard, .rightBracket => some (.loopOf tag guard done)
  | .test value, .backslash => some (.testOf value done)
  | _, _ => none

/-- A token where a statement or the end of a block is demanded. -/
def blockMove (block : Block) (done : List Node) (t : Token) (frames : List Frame) : Move :=
  match block.close? done t.kind with
  | some node => giveNode node frames
  | none =>
    match block with
    | .upTo stop =>
      if t.kind = stop then .verdict (.stop (.programOf done))
      else statementMove t (.block block done :: frames)
    | _ => statementMove t (.block block done :: frames)

/-- What a token does to a state, unless it is the end mark. -/
def ParseState.onToken (s : ParseState) (t : Token) : Move :=
  match s.goal with
  | .statement => statementMove t s.frames
  | .statements block done => blockMove block done t s.frames
  | .expression => expressionMove t s.frames
  | .setLiteral =>
    match t.kind with
    | .emptySet => giveNode (.setOf []) s.frames
    | .leftBrace => .shift ⟨.firstElement, s.frames⟩
    | _ => .verdict (.reject .setLiteral)
  | .firstElement =>
    match t.kind with
    | .rightBrace => giveNode (.setOf []) s.frames
    | _ => expressionMove t (.elements [] :: s.frames)
  | .moreElements done =>
    match t.kind with
    | .comma => .shift ⟨.expression, .elements done :: s.frames⟩
    | .rightBrace => giveNode (.setOf done) s.frames
    | _ => .verdict (.reject (.kind .rightBrace))
  | .openLoop tag guard =>
    match t.kind with
    | .leftBracket => .shift ⟨.statements (.loop tag guard) [], s.frames⟩
    | _ => .verdict (.reject (.kind .leftBracket))
  | .openTest value =>
    match t.kind with
    | .slash => .shift ⟨.statements (.test value) [], s.frames⟩
    | _ => .verdict (.reject (.kind .slash))

/-- What the end mark does to a state: nothing goes on after it. -/
def ParseState.onEnd (s : ParseState) : Verdict :=
  match s.goal with
  | .statement => .reject .statement
  | .statements .program done => .finish (.programOf done)
  | .statements (.upTo stop) done =>
    if stop = .endOfText then .stop (.programOf done) else .reject .statement
  | .statements _ _ => .reject .statement
  | .expression => .reject .expression
  | .setLiteral => .reject .setLiteral
  | .firstElement => .reject .expression
  | .moreElements _ => .reject (.kind .rightBrace)
  | .openLoop _ _ => .reject (.kind .leftBracket)
  | .openTest _ => .reject (.kind .slash)

/-- What a token does to a state. -/
def ParseState.move (s : ParseState) (t : Token) : Move :=
  if t.kind = .endOfText then .verdict s.onEnd else s.onToken t

/-! ## Parsers -/

/-- A parser: the current token, the feed behind it, and how many tokens were asked of the feed. -/
structure Parser where
  current : Token
  feed : Feed
  calls : Nat

namespace Parser

/-- A parser at the first token of a feed. -/
def start (feed : Feed) : Except Fault Parser :=
  let (first, feed) := feed.next
  first.map (⟨·, feed, 1⟩)

/-- Takes the current token. If the feed has a fault next, the current token stays. -/
def advance (p : Parser) : Except Fault Token × Parser :=
  let (next, feed) := p.feed.next
  match next with
  | .ok token => (.ok p.current, ⟨token, feed, p.calls + 1⟩)
  | .error fault => (.error fault, ⟨p.current, feed, p.calls + 1⟩)

/-- Takes the current token if it has a given kind. -/
def expect (p : Parser) (kind : TokenKind) : Except Fault Token × Parser :=
  if p.current.kind = kind then p.advance
  else (.error (.rejection (.kind kind) p.current), p)

/-- Ends a parse at the current token. -/
def conclude (p : Parser) : Verdict → Except Fault Node × Parser
  | .finish node =>
    let (taken, p) := p.advance
    (taken.map fun _ => node, p)
  | .stop node => (.ok node, p)
  | .reject demand => (.error (.rejection demand p.current), p)

/-- Runs a state over the items of a feed, given the current token. -/
def runOver (last : Token) (last_kind : last.kind = .endOfText) (s : ParseState) (current : Token)
    (calls : Nat) : List (Except Fault Token) → Except Fault Node × Parser
  | [] =>
    match s.move current with
    | .verdict v => conclude ⟨current, ⟨[], last, last_kind⟩, calls⟩ v
    | .shift next => conclude ⟨last, ⟨[], last, last_kind⟩, calls + 1⟩ next.onEnd
  | item :: rest =>
    match s.move current with
    | .verdict v => conclude ⟨current, ⟨item :: rest, last, last_kind⟩, calls⟩ v
    | .shift next =>
      match item with
      | .ok token => runOver last last_kind next token (calls + 1) rest
      | .error fault => (.error fault, ⟨current, ⟨rest, last, last_kind⟩, calls + 1⟩)

/-- Runs a state from the current token on. -/
def run (p : Parser) (s : ParseState) : Except Fault Node × Parser :=
  runOver p.feed.last p.feed.last_kind s p.current p.calls p.feed.items

/-- Parses a whole program. -/
def program (p : Parser) : Except Fault Node × Parser :=
  p.run ⟨.statements .program [], []⟩

/-- Parses an expression. -/
def expression (p : Parser) : Except Fault Node × Parser :=
  p.run ⟨.expression, []⟩

/-- Parses a set. -/
def setLiteral (p : Parser) : Except Fault Node × Parser :=
  p.run ⟨.setLiteral, []⟩

/-- Parses a statement. -/
def statement (p : Parser) : Except Fault Node × Parser :=
  p.run ⟨.statement, []⟩

/-- Takes the current token, whatever it is, and goes on in a state that depends on it. -/
def afterToken (p : Parser) (taken : Except Fault Token × Parser) (state : Token → ParseState) :
    Except Fault Node × Parser :=
  match taken with
  | (.ok _, after) => after.run (state p.current)
  | (.error fault, after) => (.error fault, after)

/-- Parses a loop whose predicate is the current token, whatever it is. -/
def loop (p : Parser) : Except Fault Node × Parser :=
  p.afterToken p.advance fun t => ⟨.setLiteral, [.guard t.kind.name]⟩

/-- Parses a set operation whose operator is the current token, whatever it is. -/
def setOperation (p : Parser) : Except Fault Node × Parser :=
  p.afterToken p.advance fun t => ⟨.setLiteral, [.setOperation t.kind.name]⟩

/-- Parses a character test. -/
def charTest (p : Parser) : Except Fault Node × Parser :=
  p.afterToken (p.expect .testedChar) fun t => ⟨.openTest t.value, []⟩

/-- Parses statements up to a token of some kind. -/
def statementsUpTo (p : Parser) (stop : TokenKind) : Except Fault (List Node) × Parser :=
  let (program, p) := p.run ⟨.statements (.upTo stop) [], []⟩
  (program.map Node.children, p)

/-- Takes one token of a kind as a node without value. -/
def simple (p : Parser) (kind : TokenKind) (node : NodeKind) : Except Fault Node × Parser :=
  let (taken, p) := p.expect kind
  (taken.map fun _ => .leaf node, p)

end Parser

/-- Parses everything a feed hands out as a program. -/
def parseFeed (feed : Feed) : Except Fault Node := do
  (← Parser.start feed).program.1

/-- Parses a text as a program. -/
def parseText (resolve : Resolver) (text : List Char) : Except Fault Node :=
  parseFeed (.ofText resolve text)

end SetLang
