import SetLang.Text.Digits

/-!
# Options of the command line

An argument is an option or a positional one. Options and positional arguments mix in any order;
long options may be shortened as long as one option is meant, short flags may share an argument, and
a value may be joined to its option. Two hyphens end the options; joined to an option they are no
value. There is one positional argument, the source. Anything else is a usage error.
-/

namespace SetLang

/-- What the command line asks for. -/
structure Options where
  source : Option String
  isText : Bool
  out : Option String
  execute : Bool
  pretty : Bool
  dumpTree : Bool
  aliasFile : Option String
  session : Bool
  verbose : Bool
  logLevel : Option String
deriving DecidableEq, Repr

/-- The options without any argument. -/
def Options.default : Options :=
  ⟨none, false, none, false, false, false, none, false, false, some "warning"⟩

/-- The mark that ends the options. -/
def endMark : String := "--"

/-- Why a command line leads to no options: help is wanted, or it is wrong. -/
inductive UsageStop where
  | help
  | wrong
deriving DecidableEq, Repr

/-- The exit code after a command line that leads to no options. -/
def UsageStop.exitCode : UsageStop → Nat
  | .help => 0
  | .wrong => 2

/-- The meaning of an option. -/
inductive OptionKey where
  | help
  | isText
  | out
  | execute
  | pretty
  | dumpTree
  | aliasFile
  | session
  | verbose
  | logLevel
deriving DecidableEq, Repr

namespace OptionKey

/-- Whether an option has a value. -/
def hasValue : OptionKey → Bool
  | out => true
  | aliasFile => true
  | logLevel => true
  | _ => false

/-- The spellings of all options. -/
def spellings : List (String × OptionKey) := [
  ("-h", help), ("--help", help), ("-s", isText), ("--string", isText), ("-o", out),
  ("--out", out), ("-e", execute), ("--exec", execute), ("-p", pretty), ("--pretty", pretty),
  ("--ast", dumpTree), ("--sugar", aliasFile), ("--repl", session), ("--verbose", verbose),
  ("--log-level", logLevel)]

/-- The levels of the log. -/
def logLevels : List String := ["debug", "info", "warning", "error"]

/-- Sets an option without a value. -/
def setFlag (key : OptionKey) (o : Options) : Except UsageStop Options :=
  match key with
  | help => .error .help
  | isText => .ok { o with isText := true }
  | execute => .ok { o with execute := true }
  | pretty => .ok { o with pretty := true }
  | dumpTree => .ok { o with dumpTree := true }
  | session => .ok { o with session := true }
  | verbose => .ok { o with verbose := true }
  | _ => .error .wrong

/-- The value that a text stands for; the end mark stands for none. -/
def valueOf (text : String) : Option String :=
  if text = endMark then none else some text

/-- Sets an option with a value. -/
def setValue (key : OptionKey) (text : String) (o : Options) : Except UsageStop Options :=
  let value := valueOf text
  match key with
  | out => .ok { o with out := value }
  | aliasFile => .ok { o with aliasFile := value }
  | logLevel => if value.all logLevels.contains then .ok { o with logLevel := value } else .error .wrong
  | _ => .error .wrong

end OptionKey

/-! ## Arguments -/

/-- What an argument is. An option is spelled by a long name or by a letter; text may be joined to it,
right after the letter or after an equals sign. -/
inductive Argument where
  | positional (text : String)
  | option (key : OptionKey) (long : Bool) (joined : Option (List Char))
  | unknown
deriving DecidableEq, Repr

/-- The text before the first equals sign, and the text after it if there is one. -/
def splitEquals (text : List Char) : List Char × Option (List Char) :=
  let name := text.takeWhile (· != '=')
  (name, (text.drop name.length).tail?)

/-- Whether a text looks like a negative number: a hyphen and digits, with a point before the last
of them or not. A line feed at the end does not count. -/
def looksNegative (text : List Char) : Bool :=
  match text with
  | '-' :: rest =>
    let rest := if rest.getLast? == some '\n' then rest.dropLast else rest
    let whole := rest.takeWhile Text.isDecimal
    match rest.drop whole.length with
    | [] => !whole.isEmpty
    | '.' :: fraction => !fraction.isEmpty && fraction.all Text.isDecimal
    | _ => false
  | _ => false

/-- Whether a spelling is a long name. -/
def isLongName (spelling : List Char) : Bool :=
  endMark.toList.isPrefixOf spelling

/-- The options that an argument may mean although it is not spelled out: a long option by its
beginning, a one-letter option by its letter with more right after it. -/
def candidates (text : List Char) : List Argument :=
  match text with
  | '-' :: '-' :: _ =>
    let (name, value) := splitEquals text
    OptionKey.spellings.filterMap fun (spelling, key) =>
      if name.isPrefixOf spelling.toList then some (.option key true value) else none
  | a :: b :: rest =>
    OptionKey.spellings.filterMap fun (spelling, key) =>
      if spelling = String.ofList [a, b] then some (.option key false (some rest)) else none
  | _ => []

/-- The option that an argument spells out, with the text after an equals sign or without any. -/
def spelledOut? (argument : String) : Option Argument :=
  let long := isLongName argument.toList
  match OptionKey.spellings.lookup argument, splitEquals argument.toList with
  | some key, _ => some (.option key long none)
  | none, (name, some value) =>
    (OptionKey.spellings.lookup (String.ofList name)).map (.option · long (some value))
  | none, (_, none) => none

/-- What an argument is, unless it is ambiguous. -/
def classify (argument : String) : Except UsageStop Argument :=
  let text := argument.toList
  if text.head? != some '-' || text.length == 1 then .ok (.positional argument)
  else
    match spelledOut? argument, candidates text with
    | some option, _ => .ok option
    | none, [only] => .ok only
    | none, _ :: _ :: _ => .error .wrong
    | none, [] =>
      if looksNegative text || text.contains ' ' then .ok (.positional argument) else .ok .unknown

/-- What the arguments before the end mark are, and the arguments after it if there is one. -/
def classifyAll : List String → Except UsageStop (List Argument × Option (List String))
  | [] => .ok ([], none)
  | argument :: rest =>
    if argument = endMark then .ok ([], some rest)
    else do
      let first ← classify argument
      let (more, raw) ← classifyAll rest
      return (first :: more, raw)

/-! ## Clusters -/

/-- How an argument of options ends: with its last flag, with an option and its value, or with an
option whose value is the next argument. -/
inductive ClusterEnd where
  | flag
  | value (key : OptionKey) (text : String)
  | awaits (key : OptionKey)
deriving DecidableEq, Repr

/-- The flags that some letters stand for, and how the argument ends. What follows the letter of an
option with a value is the value. -/
def cluster : List Char → Except UsageStop (List OptionKey × ClusterEnd)
  | [] => .ok ([], .flag)
  | letter :: rest =>
    match OptionKey.spellings.lookup (String.ofList ['-', letter]) with
    | none => .error .wrong
    | some key =>
      if key.hasValue then
        .ok ([], if rest.isEmpty then .awaits key else .value key (String.ofList rest))
      else (cluster rest).map fun (flags, ending) => (key :: flags, ending)

/-- The flags in an argument and how it ends, given the text joined to its option. What is joined to
the letter of a flag are more letters, with an equals sign between them or not. -/
def expand (key : OptionKey) (long : Bool) :
    Option (List Char) → Except UsageStop (List OptionKey × ClusterEnd)
  | none => .ok (if key.hasValue then ([], .awaits key) else ([key], .flag))
  | some text =>
    if key.hasValue then .ok ([], .value key (String.ofList text))
    else if long || text.isEmpty then .error .wrong
    else (cluster text).map fun (flags, ending) => (key :: flags, ending)

/-! ## Reading -/

/-- What was read of a command line: the options, whether the source was the last argument read, and
whether there was an argument too many. -/
structure Reading where
  options : Options
  atSource : Bool
  excess : Bool

/-- Reads a positional argument. -/
def Reading.positional (r : Reading) (text : String) : Reading :=
  if r.options.source.isSome then { r with atSource := false, excess := true }
  else { r with options := { r.options with source := some text }, atSource := true }

/-- Reads what follows the end mark. The mark belongs to the source next to it. -/
def Reading.afterMark (r : Reading) : List String → Reading
  | [] => { r with excess := r.excess || (r.options.source.isSome && !r.atSource) }
  | text :: rest =>
    if r.options.source.isSome then { r with excess := true }
    else { r.positional text with excess := r.excess || !rest.isEmpty }

/-- Sets the flags of an argument one after the other. -/
def Reading.setFlags (r : Reading) (flags : List OptionKey) : Except UsageStop Reading := do
  let options ← flags.foldlM (fun o flag => flag.setFlag o) r.options
  return { r with options, atSource := false }

/-- Sets the flags of an argument, and then the value of the option that it ends with. -/
def Reading.setAll (r : Reading) (flags : List OptionKey) (key : OptionKey) (text : String) :
    Except UsageStop Reading := do
  let r ← r.setFlags flags
  let options ← key.setValue text r.options
  return { r with options }

/-- Reads arguments in order. An argument has an effect only if its last option has its value. -/
def readArguments (r : Reading) : List Argument → Except UsageStop Reading
  | [] => .ok r
  | .positional text :: rest => readArguments (r.positional text) rest
  | .unknown :: rest => readArguments { r with atSource := false, excess := true } rest
  | .option key long joined :: rest => do
    let (flags, ending) ← expand key long joined
    match ending, rest with
    | .flag, rest => readArguments (← r.setFlags flags) rest
    | .value key text, rest => readArguments (← r.setAll flags key text) rest
    | .awaits key, .positional text :: rest => readArguments (← r.setAll flags key text) rest
    | .awaits _, _ => .error .wrong

/-- Reads a command line. -/
def Options.read (arguments : List String) : Except UsageStop Options := do
  let (classified, raw) ← classifyAll arguments
  let r ← readArguments ⟨.default, false, false⟩ classified
  let r := raw.elim r r.afterMark
  if r.excess then .error .wrong else return r.options

end SetLang
