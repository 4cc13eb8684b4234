import DependencyAtlas.Document.Graph
import DependencyAtlas.Document.Record
import DependencyAtlas.Json.Reading
import DependencyAtlas.Toml.Reading

set_option autoImplicit false

namespace DependencyAtlas

namespace Toml

mutual

def toDatum : Toml → Datum
  | .bool b => .bool b
  | .integer n => .number (some (Float.ofInt n))
  | .float x => .number (some x)
  | .string s => .text (some s)
  | .array items => .list (itemsToData items)
  | .table _ es => .fields (entriesToData es)
  | .tables items => .list (tablesToData items).reverse

def itemsToData : List Toml → List Datum
  | [] => []
  | v :: rest => v.toDatum :: itemsToData rest

def entriesToData : List (String × Toml) → List (Option String × Datum)
  | [] => []
  | (k, v) :: rest => (some k, v.toDatum) :: entriesToData rest

def tablesToData : List (List (String × Toml)) → List Datum
  | [] => []
  | es :: rest => .fields (entriesToData es) :: tablesToData rest

end

end Toml

def Datum.parse? (format : Format) (text : String) : Option Datum :=
  match format with
  | .json => (Json.parse? text).map .ofJson
  | .toml => (Toml.parse? text).map fun es => .fields (Toml.entriesToData es)

namespace Document

inductive ReadError where
  | missing
  | notText
  | system (reason : String)
deriving DecidableEq, Repr

def ReadError.message : ReadError → String
  | missing => "No such file or directory (os error 2)"
  | notText => "stream did not contain valid UTF-8"
  | system reason => reason

abbrev Content := Except ReadError ByteArray

def Content.text (content : Content) : Except ReadError String := do
  match String.fromUTF8? (← content) with
  | some text => return text
  | none => throw .notText

inductive FileError where
  | read (error : ReadError)
  | malformed
deriving DecidableEq, Repr

namespace FileError

def message : FileError → String
  | read e => s!"IO error: {e.message}"
  | malformed => "Parse error"

def chain : FileError → List String
  | read e => [(read e).message, e.message]
  | malformed => [malformed.message]

end FileError

-- A point in front of a name does not count.
def extension? (path : String) : Option String := do
  let parts := (path.splitOn "/").filter fun part => part ≠ "" && part ≠ "."
  let name ← parts.getLast?
  if name = ".." then none
  else
    match (name.splitOn ".").reverse with
    | last :: first :: others => if others = [] ∧ first = "" then none else some last
    | _ => none

def formatOf (path : String) : Format :=
  match extension? path with
  | some ext => if ext.toLower = "toml" then .toml else .json
  | none => .json

def load {α : Type} (read : Format → Datum → Option α) (path : String) (content : Content) :
    Except FileError α := do
  let text ← content.text.mapError .read
  let format := formatOf path
  match (Datum.parse? format text).bind (read format) with
  | some a => return a
  | none => throw .malformed

end Document

namespace Path.Draft

def parse? (format : Format) (text : String) : Option Draft :=
  (Datum.parse? format text).bind (ofDatum? format)

def load (path : String) (content : Document.Content) : Except Document.FileError Draft :=
  Document.load ofDatum? path content

end Path.Draft

namespace Layout

inductive SettingsFileError where
  | file (error : Document.FileError)
  | invalid (error : SettingsError)

namespace SettingsFileError

def chain : SettingsFileError → List String
  | file e => e.chain
  | invalid e => [e.message]

end SettingsFileError

namespace Settings

def parse? (format : Format) (text : String) : Option Settings :=
  (Datum.parse? format text).bind (ofDatum? format)

def load (path : String) (content : Document.Content) : Except SettingsFileError Settings := do
  let s ← (Document.load ofDatum? path content).mapError .file
  s.validate.mapError .invalid
  return s

end Settings

end Layout

def Document.GraphDocument.parse? (text : String) : Option Document.GraphDocument :=
  (Datum.parse? .json text).bind Document.GraphDocument.ofDatum?

end DependencyAtlas
