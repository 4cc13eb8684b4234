import DependencyAtlas.Json.Value

set_option autoImplicit false

namespace DependencyAtlas

inductive Format where
  | json | toml
deriving DecidableEq, Repr

inductive Datum where
  | null
  | bool (value : Bool)
  | number (value : Option Float)
  | text (value : Option String)
  | list (items : List Datum)
  | fields (entries : List (Option String × Datum))

namespace Datum

mutual

def ofJson : Json → Datum
  | .null => .null
  | .bool b => .bool b
  | .number literal => .number (Json.Number.worth? literal)
  | .string s => .text s
  | .array items => .list (ofItems items)
  | .object entries => .fields (ofFields entries)

def ofItems : List Json → List Datum
  | [] => []
  | v :: rest => ofJson v :: ofItems rest

def ofFields : List (Json.Text × Json) → List (Option String × Datum)
  | [] => []
  | (k, v) :: rest => (k, ofJson v) :: ofFields rest

end

def bool? : Datum → Option Bool
  | .bool b => some b
  | _ => none

def number? : Datum → Option Float
  | .number x => x
  | _ => none

def text? : Datum → Option String
  | .text s => s
  | _ => none

def list? {α : Type} (item : Datum → Option α) : Datum → Option (List α)
  | .list items => items.mapM item
  | _ => none

def texts? : Datum → Option (List String) := list? text?

def nullable? {α : Type} (value : Datum → Option α) : Datum → Option (Option α)
  | .null => some none
  | d => (value d).map some

def entries? : Datum → Option (List (String × Datum))
  | .fields entries => entries.mapM fun (k, v) => k.map (·, v)
  | _ => none

def pick? (names : List String) (entries : List (String × Datum)) : Option (List (Option Datum)) :=
  if (entries.map (·.1)).Nodup then
    some (names.map fun name => (entries.find? (·.1 == name)).map (·.2))
  else none

def pad (names : List String) (items : List Datum) : List (Option Datum) :=
  (List.range names.length).map fun i => items[i]?

-- Other fields are an error; a list of too many items is one in JSON only.
def record? (format : Format) (names : List String) (d : Datum) : Option (List (Option Datum)) :=
  match d with
  | .fields _ => do
    let entries ← d.entries?
    if entries.all fun e => names.contains e.1 then pick? names entries else none
  | .list items =>
    if items.length ≤ names.length ∨ format = .toml then some (pad names items) else none
  | _ => none

def openRecord? (names : List String) (d : Datum) : Option (List (Option Datum)) :=
  match d with
  | .fields _ => do
    let entries ← d.entries?
    pick? names (entries.filter fun e => names.contains e.1)
  | .list items => if items.length ≤ names.length then some (pad names items) else none
  | _ => none

def required {α : Type} (value : Datum → Option α) : Option Datum → Option α
  | none => none
  | some d => value d

def defaulted {α : Type} (fallback : α) (value : Datum → Option α) : Option Datum → Option α
  | none => some fallback
  | some d => value d

def choice? {α : Type} (format : Format) (ofName : String → Option α) : Datum → Option α
  | .text name => name.bind ofName
  | .fields [(name, content)] => if blank format content then name.bind ofName else none
  | _ => none
where
  blank : Format → Datum → Bool
    | .json, .null => true
    | .toml, .list [] => true
    | .toml, .fields [] => true
    | _, _ => false

end Datum

end DependencyAtlas
