import SetLang.Fault

/-!
# `Files`: a model of a directory of files

Files are known by the names on the way from the current directory to them; every name on the way is
a directory. Paths are resolved name by name: an empty name or a single dot stays, two dots go up,
and a way that leads through a missing name or through a file ends there. Outside the current
directory only the standard directories below the root and the null device are known: no other file
is found there, and what is written there is lost.
-/

namespace SetLang

/-- Files with the names on the way to them. -/
structure Files where
  entries : List (List String × List UInt8)
deriving DecidableEq, Repr

/-- Where the names of a path are looked up: on a way from the current directory, in a directory
above it, or on a way from the root. -/
inductive Directory where
  | below (way : List String)
  | above
  | fromRoot (way : List String)
deriving DecidableEq, Repr

/-- The directory above a directory. -/
def Directory.parent : Directory → Directory
  | below [] => above
  | below way => below way.dropLast
  | above => above
  | fromRoot way => fromRoot way.dropLast

/-- The directory under a name in a directory, if there is one. -/
def Directory.child : Directory → String → Directory
  | below way, name => below (way ++ [name])
  | above, _ => above
  | fromRoot way, name => fromRoot (way ++ [name])

/-- Where a path leads. -/
inductive Destination where
  | file (way : List String)
  | directory
  /-- A name that is missing from an existing directory. -/
  | missing (way : List String)
  /-- A name that is missing from a directory outside the current one. -/
  | outside
  /-- A file that is always empty. -/
  | nullDevice
  | blocked (cause : PathCause)
deriving DecidableEq, Repr

/-- What becomes of a destination that more names follow. -/
def Destination.through : Destination → Destination
  | file _ => .blocked .notDirectory
  | nullDevice => .blocked .notDirectory
  | missing _ => .blocked .notFound
  | outside => .blocked .notFound
  | other => other

namespace Files

/-- The longest name, and the first length that is too long for a path, in bytes. -/
def nameLimit : Nat := 255
@[inherit_doc nameLimit]
def pathLimit : Nat := 4096

/-- The content of a file. -/
def content? (files : Files) (way : List String) : Option (List UInt8) :=
  files.entries.lookup way

/-- Whether there are files below a way. -/
def isDirectory (files : Files) (way : List String) : Bool :=
  way.isEmpty || files.entries.any fun (other, _) => way.isPrefixOf other && way != other

/-- The names of a path. -/
def names (path : String) : List String :=
  (Text.splitAtEach '/' path.toList).map String.ofList

/-- The names of the standard directories below the root. -/
def standardNames : List String :=
  ["bin", "boot", "dev", "etc", "home", "lib", "media", "mnt", "opt", "proc", "root", "run", "sbin",
    "srv", "sys", "tmp", "usr", "var"]

/-- What stands under a name on a way from the root, if it is known. -/
def known? (way : List String) : Option Destination :=
  match way with
  | [name] => if standardNames.contains name then some .directory else none
  | ["dev", "null"] => some .nullDevice
  | _ => none

/-- What stands under a name in a directory. -/
def lookUp (files : Files) (here : Directory) (name : String) : Destination :=
  match here with
  | .below way =>
    let way := way ++ [name]
    if files.isDirectory way then .directory
    else if (files.content? way).isSome then .file way
    else .missing way
  | .above => .outside
  | .fromRoot way => (known? (way ++ [name])).getD .outside

/-- Follows names from a directory. Slashes after the last name demand a directory there: if the path
is to be created, it leads to a directory whatever is there. -/
def follow (files : Files) (creating : Bool) (here : Directory) : List String → Destination
  | [] => .directory
  | name :: rest =>
    if creating && !rest.isEmpty && rest.all (· == "") then .directory
    else if name = "" ∨ name = "." then follow files creating here rest
    else if name = ".." then follow files creating here.parent rest
    else if nameLimit < name.utf8ByteSize then .blocked .nameTooLong
    else
      match files.lookUp here name with
      | .directory => follow files creating (here.child name) rest
      | found => if rest.isEmpty then found else found.through

/-- Where a path leads. -/
def locate (files : Files) (creating : Bool) (path : String) : Destination :=
  if path.contains '\x00' then .blocked .nullCharacter
  else if path.isEmpty then .blocked .notFound
  else if pathLimit ≤ path.utf8ByteSize then .blocked .nameTooLong
  else
    let start := if path.toList.head? = some '/' then .fromRoot [] else .below []
    files.follow creating start (names path)

/-- Reads a file. -/
def read (files : Files) (path : String) : Except Fault (List UInt8) :=
  match files.locate false path with
  | .file way => .ok ((files.content? way).getD [])
  | .directory => .error (.path .isDirectory path)
  | .missing _ => .error (.path .notFound path)
  | .outside => .error (.path .notFound path)
  | .nullDevice => .ok []
  | .blocked cause => .error (.path cause path)

/-- Replaces the content of a file or adds one. -/
def put (files : Files) (way : List String) (bytes : List UInt8) : Files :=
  ⟨files.entries.filter (·.1 != way) ++ [(way, bytes)]⟩

/-- Writes a file. -/
def write (files : Files) (path : String) (text : String) : Except Fault Files :=
  match files.locate true path with
  | .file way => .ok (files.put way text.toUTF8.toList)
  | .directory => .error (.path .isDirectory path)
  | .missing way => .ok (files.put way text.toUTF8.toList)
  | .outside => .ok files
  | .nullDevice => .ok files
  | .blocked cause => .error (.path cause path)

/-- The files that are new or have changed, with their names joined by slashes, in order. -/
def changes (old new : Files) : List (String × List UInt8) :=
  let changed := new.entries.filter fun (way, bytes) => old.content? way != some bytes
  (changed.map fun (way, bytes) => (Text.joinWith "/" way, bytes)).mergeSort
    fun x y => Text.textLe x.1 y.1

end Files

end SetLang
