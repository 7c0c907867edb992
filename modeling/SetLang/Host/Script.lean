import SetLang.Fault

/-!
# `Script`: what a command asks of its surroundings

A script says text and asks for files, one request after the other, and ends with a result or a
fault. It says nothing about how requests are met, so the same script runs on a model of the
surroundings and on the real ones. What is said is encoded as UTF-8, so a text with a lone half
cannot be said.
-/

namespace SetLang

/-- The bytes of a file. -/
abbrev Bytes := List UInt8

/-- A sequence of requests that ends with a result or a fault. -/
inductive Script (α : Type) where
  | done (result : α)
  | fail (fault : Fault)
  | say (text : String) (next : Script α)
  | readFile (path : String) (next : Except Fault Bytes → Script α)
  | writeFile (path : String) (text : String) (next : Except Fault Unit → Script α)

namespace Script

/-- One script after another. -/
def andThen {α β : Type} (script : Script α) (next : α → Script β) : Script β :=
  match script with
  | done result => next result
  | fail fault => fail fault
  | say text rest => say text (rest.andThen next)
  | readFile path rest => readFile path fun bytes => (rest bytes).andThen next
  | writeFile path text rest => writeFile path text fun result => (rest result).andThen next

instance : Monad Script where
  pure := done
  bind := andThen

/-- Another script in the place of a fault. -/
def orElse {α : Type} (script : Script α) (recover : Fault → Script α) : Script α :=
  match script with
  | done result => done result
  | fail fault => recover fault
  | say text rest => say text (rest.orElse recover)
  | readFile path rest => readFile path fun bytes => (rest bytes).orElse recover
  | writeFile path text rest => writeFile path text fun result => (rest result).orElse recover

/-- The script that ends with a result or a fault at once. -/
def ofExcept {α : Type} : Except Fault α → Script α
  | .ok result => done result
  | .error fault => fail fault

/-- Says a text. -/
def print (text : String) : Script Unit :=
  say text (done ())

/-- Says a text and ends the line. -/
def printLine (text : String) : Script Unit :=
  print (text ++ "\n")

/-- Says a wide text and ends the line; a text that cannot be encoded is a fault. -/
def printWideLine (text : WideText) : Script Unit :=
  match text.encode with
  | .ok text => printLine text
  | .error error => fail (.unencodable error)

/-- Asks for a file, whatever comes of it. -/
def tryRead (path : String) : Script (Except Fault Bytes) :=
  readFile path done

/-- Asks for a file to be written. -/
def write (path text : String) : Script Unit :=
  writeFile path text ofExcept

end Script

end SetLang
