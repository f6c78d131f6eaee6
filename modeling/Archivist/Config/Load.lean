import Archivist.Config.Reading
import Archivist.Json.Reader
import Archivist.Toml.Reader
set_option autoImplicit false

namespace Archivist

inductive LoadError where
  | io (e : IoError)
  | malformed
  | refused (e : TransferError)
  | unknownEnding (ending : String)
  | invalid (f : ConfigFault)
deriving DecidableEq

def LoadError.ofFault : Fault TransferError → LoadError
  | .malformed => .malformed
  | .refused e => .refused e

def LoadError.message : LoadError → String
  | .io e => e.message
  | .malformed => "malformed document"
  | .refused e => e.message
  | .unknownEnding ending => s!"Unsupported config file extension: {ending}"
  | .invalid f => (ArchiveError.config f).message

abbrev Files := String → Except IoError (List UInt8)

/-- The last name of a path; a path that ends by climbing up has none. -/
def fileName (path : String) : List Char :=
  match ((Text.pieces '/' path.toList).filter fun p => p ≠ [] ∧ p ≠ ['.']).getLast? with
  | some name => if name = ['.', '.'] then [] else name
  | none => []

/-- What stands behind the last point of a file's name, unless the name begins with that point. -/
def ending (path : String) : String :=
  match (Text.pieces '.' (fileName path)) with
  | [] | [_] => ""
  | [[], _] => ""
  | ps => String.ofList (ps.getLastD [])

def Files.text (files : Files) (path : String) : Except IoError String := do
  match String.fromUTF8? ⟨(← files path).toArray⟩ with
  | some s => .ok s
  | none => .error .notUtf8

namespace Settings

def parse (ending text : String) : Except LoadError Settings :=
  let format := String.ofList (ending.toList.map Char.toLower)
  if format = "toml" then
    (Toml.decode (Reads.settings Toml.dialect) text).mapError LoadError.ofFault
  else if format = "json" then
    (Json.decode (Reads.settings Json.dialect) text).mapError LoadError.ofFault
  else .error (.unknownEnding ending)

def load (files : Files) (path : String) : Except LoadError Settings := do
  let text ← (files.text path).mapError LoadError.io
  let settings ← parse (ending path) text
  settings.check.mapError LoadError.invalid
  return settings

end Settings
end Archivist
