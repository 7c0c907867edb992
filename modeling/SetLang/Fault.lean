import SetLang.Text.Utf8
import SetLang.Text.Wide
import SetLang.Token.Basic
import SetLang.Tree.Kind

/-!
# `Fault`: everything that can go wrong

Each fault is a cause with the data that its message needs. A fault belongs to a class, which a
session shows before the message. Of a fault that nothing catches no more is known than its class and
its message: not the chain of calls that it passed.
-/

namespace SetLang

/-! ## Causes -/

/-- Why a text has no token at a place. -/
inductive LexicalCause where
  | emptyLiteral
  | unterminatedLiteral
  | unknownEscape (c : Char)
  | integerTooLong
deriving DecidableEq, Repr

/-- What the grammar demands of a token. -/
inductive Demand where
  | kind (kind : TokenKind)
  | expression
  | setLiteral
  | statement
deriving DecidableEq, Repr

/-- An alias that stands for one kind and is asked to stand for another. -/
structure Collision where
  word : String
  bound : TokenKind
  wanted : TokenKind
deriving DecidableEq, Repr

/-- Why a configuration of aliases is refused. -/
inductive AliasCause where
  | unknownSymbol (symbol : WideText)
  | notWord (word : WideText)
  | shadowsKeyword (word : String)
  | collisions (collisions : List Collision)
  | tooManyEntries
  | notConfiguration
  /-- The file of a configuration cannot be read, for a reason in words. -/
  | unreadable (reason : String)
deriving DecidableEq, Repr

/-- Why a path cannot be opened. -/
inductive PathCause where
  | notFound
  | isDirectory
  | notDirectory
  | nameTooLong
  | nullCharacter
deriving DecidableEq, Repr

/-- Values that cannot be changed once they are made. -/
inductive Immutable where
  | token
  | node
  | set
deriving DecidableEq, Repr

/-- A thing that went wrong. -/
inductive Fault where
  /-- A text that has no token at a place. -/
  | lexical (cause : LexicalCause) (place : Text.Place)
  /-- A read past the end of a text. -/
  | pastEnd (position : Nat) (line : Int)
  /-- A token that the grammar does not allow where it stands. -/
  | rejected (demand : Demand) (token : Token)
  /-- An integer that is too long for decimal text. -/
  | digitLimit
  /-- A name of no node kind. -/
  | unknownNodeKind (name : String)
  /-- A node that lacks the child it is asked for. -/
  | missingChild
  /-- A node that is no loop and is asked for its guard. -/
  | noGuard (kind : NodeKind)
  /-- A node that stands for no statement. -/
  | notStatement (kind : NodeKind)
  /-- A node that stands for no expression or set. -/
  | notExpression (kind : NodeKind)
  /-- A value that is no tree. -/
  | notTree
  /-- A target language that no emitter serves. -/
  | unknownTarget (target : String)
  /-- A name of no set operator. -/
  | unknownOperator (name : String)
  /-- A name of no loop predicate. -/
  | unknownPredicate (name : String)
  /-- An attempt to set or to delete a field of an immutable value. -/
  | immutable (what : Immutable) (deleting : Bool) (field : String)
  /-- A listing with a line that is indented too deep. -/
  | indentedTooDeep (line : Nat)
  /-- A listing with a loop inside too many loops. -/
  | nestedTooDeep (line : Nat)
  /-- A refused configuration of aliases. -/
  | aliases (cause : AliasCause)
  /-- A symbol that is a list or a dictionary. -/
  | unhashable (typeName : String)
  /-- A path that cannot be opened. -/
  | path (cause : PathCause) (path : String)
  /-- A file that is not UTF-8. -/
  | encoding (error : Text.Utf8Error)
  /-- A text that is to be shown and holds a lone half. -/
  | unencodable (error : EncodeError)
  /-- A source path without the suffix of source files. -/
  | notSourceFile
  /-- A command line that takes the level of the log away. -/
  | noLogLevel
  /-- A read of a character before the front of a text. -/
  | beforeFront
deriving DecidableEq, Repr

/-! ## Messages -/

/-- The words for what was demanded. -/
def Demand.words : Demand → String
  | .kind k => k.name
  | .expression => "expression"
  | .setLiteral => "set literal"
  | .statement => "statement"

/-- One collision in words. -/
def Collision.words (c : Collision) : String :=
  "'" ++ c.word ++ "' → conflict between " ++ c.bound.name ++ " and " ++ c.wanted.name

/-- The message of a lexical cause, without its place. -/
def LexicalCause.message : LexicalCause → String
  | .emptyLiteral => "Empty character literal"
  | .unterminatedLiteral => "Unterminated character literal"
  | .unknownEscape c => "Unknown escape '\\" ++ String.ofList [c] ++ "'"
  | .integerTooLong => "Integer literal too long"

/-- The message of a refused configuration. Only a symbol stands in it as it was written. -/
def AliasCause.message : AliasCause → WideText
  | .unknownSymbol symbol => "Unknown symbolic token name: " ++ symbol
  | .notWord word => "Alias must be a word: " ++ word.quoted
  | .shadowsKeyword word => "Alias shadows a keyword: " ++ Text.quoted word
  | .collisions _ => "Alias collision(s) detected"
  | .tooManyEntries => "Too many entries in list-mode config"
  | .notConfiguration => "Configuration must be either a list or a dict"
  | .unreadable reason => "Failed to load sugar file: " ++ reason

/-- The collisions that a refused configuration reports. -/
def AliasCause.conflicts : AliasCause → List String
  | .collisions cs => cs.map Collision.words
  | _ => []

/-- The message of a path that cannot be opened. -/
def PathCause.message (path : String) : PathCause → String
  | .notFound => "[Errno 2] No such file or directory: " ++ Text.quoted path
  | .isDirectory => "[Errno 21] Is a directory: " ++ Text.quoted path
  | .notDirectory => "[Errno 20] Not a directory: " ++ Text.quoted path
  | .nameTooLong => "[Errno 36] File name too long: " ++ Text.quoted path
  | .nullCharacter => "embedded null byte"

/-- The name of an immutable type. -/
def Immutable.name : Immutable → String
  | .token => "Token"
  | .node => "ASTNode"
  | .set => "ZSet"

/-- The message of a decoding error: one byte is shown, several are located. -/
def encodingMessage (e : Text.Utf8Error) : String :=
  let reason :=
    match e.cause with
    | .start => "invalid start byte"
    | .continuation => "invalid continuation byte"
    | .truncated => "unexpected end of data"
  let position := Integer.decimal e.position
  if e.length = 1 then
    "'utf-8' codec can't decode byte 0x" ++ String.ofList (Text.hexDigits 2 e.byte) ++
      " in position " ++ position ++ ": " ++ reason
  else
    "'utf-8' codec can't decode bytes in position " ++ position ++ "-" ++
      Integer.decimal (e.position + e.length - 1) ++ ": " ++ reason

/-- The message of an encoding error: one half is shown, several are located. -/
def EncodeError.message (e : EncodeError) : String :=
  let position := Integer.decimal e.position
  if e.length = 1 then
    "'utf-8' codec can't encode character '" ++ String.ofList (CodePoint.escape e.half) ++
      "' in position " ++ position ++ ": surrogates not allowed"
  else
    "'utf-8' codec can't encode characters in position " ++ position ++ "-" ++
      Integer.decimal (e.position + e.length - 1) ++ ": surrogates not allowed"

/-- The message of a rejected token. -/
def rejectionMessage (demand : Demand) (token : Token) : String :=
  let words :=
    match demand with
    | .kind k => "Expected " ++ k.name ++ ", got " ++ token.shown?.getD token.kind.name
    | .expression => "Invalid expression token"
    | .setLiteral => "Expected set literal"
    | .statement => "Invalid statement token"
  words ++ " at " ++ token.location

/-- The message of integer text past its limit. -/
def digitLimitMessage : String :=
  "Exceeds the limit (" ++ Integer.decimal decimalDigitLimit ++
    " digits) for integer string conversion; use sys.set_int_max_str_digits() to increase the limit"

/-- The suffix of source files. -/
def sourceSuffix : String := ".zer"

namespace Fault

/-- The message of a fault. A lone half in it shows as its escape, as it does where every text has to
be shown. -/
def message : Fault → String
  | lexical cause place =>
    cause.message ++ " at line " ++ Integer.decimal place.line ++ ", col " ++
      Integer.decimal place.column
  | pastEnd position line =>
    "Attempted to read past end of source at position=<" ++ Integer.decimal position ++
      ">, line=<" ++ Integer.decimal line ++ ">"
  | rejected demand token => rejectionMessage demand token
  | digitLimit => digitLimitMessage
  | unknownNodeKind name => "Unknown AST node kind: " ++ Text.quoted name
  | missingChild => "tuple index out of range"
  | noGuard kind => kind.name ++ " node has no guard set"
  | notStatement kind => "PythonEmitter: no emitter for " ++ kind.name
  | notExpression kind => "PythonEmitter: " ++ kind.name ++ " is not an expression"
  | notTree => "Transpiler input must be an ASTNode instance."
  | unknownTarget target => "Unknown transpilation target: " ++ Text.quoted target
  | unknownOperator name => "Unknown set operator: " ++ name
  | unknownPredicate name => "Unknown loop predicate: " ++ name
  | immutable what deleting field =>
    what.name ++ " is immutable; cannot " ++ (if deleting then "delete " else "set ") ++
      Text.quoted field
  | indentedTooDeep line =>
    "too many levels of indentation (<string>, line " ++ Integer.decimal line ++ ")"
  | nestedTooDeep line =>
    "too many statically nested blocks (<string>, line " ++ Integer.decimal line ++ ")"
  | aliases cause => cause.message.shown
  | unhashable typeName => "unhashable type: '" ++ typeName ++ "'"
  | path cause name => cause.message name
  | encoding error => encodingMessage error
  | unencodable error => error.message
  | notSourceFile => "Only " ++ sourceSuffix ++ " files are supported."
  | noLogLevel => "'list' object has no attribute 'upper'"
  | beforeFront => "string index out of range"

/-- The class of a fault. -/
def className : Fault → String
  | lexical .. => "SyntaxError"
  | pastEnd .. => "EOFError"
  | rejected .. => "ParseError"
  | digitLimit => "ValueError"
  | unknownNodeKind _ => "ValueError"
  | missingChild => "IndexError"
  | noGuard _ => "AttributeError"
  | notStatement _ => "NotImplementedError"
  | notExpression _ => "NotImplementedError"
  | notTree => "TypeError"
  | unknownTarget _ => "ValueError"
  | unknownOperator _ => "ValueError"
  | unknownPredicate _ => "ValueError"
  | immutable .. => "AttributeError"
  | indentedTooDeep _ => "IndentationError"
  | nestedTooDeep _ => "SyntaxError"
  | aliases _ => "MappingError"
  | unhashable _ => "TypeError"
  | path cause _ =>
    match cause with
    | .notFound => "FileNotFoundError"
    | .isDirectory => "IsADirectoryError"
    | .notDirectory => "NotADirectoryError"
    | .nameTooLong => "OSError"
    | .nullCharacter => "ValueError"
  | encoding _ => "UnicodeDecodeError"
  | unencodable _ => "UnicodeEncodeError"
  | notSourceFile => "ValueError"
  | noLogLevel => "AttributeError"
  | beforeFront => "IndexError"

/-- The fault of a token that is not what the grammar demands. The message of a demanded kind shows
the token, so an integer that cannot be shown takes precedence. -/
def rejection (demand : Demand) (token : Token) : Fault :=
  match demand with
  | .kind _ => if token.shown?.isSome then rejected demand token else digitLimit
  | _ => rejected demand token

end Fault

end SetLang
