import DependencyAtlas.Decimal.Numeral

set_option autoImplicit false

namespace DependencyAtlas

namespace Toml

inductive Origin where
  | header
  | implied
  | dotted
  | inline
deriving DecidableEq, Repr

end Toml

inductive Toml where
  | bool (value : Bool)
  | integer (value : Int)
  | float (value : Float)
  | string (value : String)
  | array (items : List Toml)
  | table (origin : Toml.Origin) (entries : List (String × Toml))
  | tables (items : List (List (String × Toml)))

namespace Toml

abbrev Entries := List (String × Toml)

namespace Entries

def get? (es : Entries) (key : String) : Option Toml := (es.find? (·.1 == key)).map (·.2)

def set (es : Entries) (key : String) (value : Toml) : Entries :=
  if (es.get? key).isSome then es.map fun e => if e.1 == key then (key, value) else e
  else es ++ [(key, value)]

-- Of tables in double brackets the latest is meant.
def change (origin : Origin) (edit : Origin → Entries → Option (Origin × Entries)) :
    List String → Origin → Entries → Option (Origin × Entries)
  | [], o, es => edit o es
  | key :: path, o, es => do
    match es.get? key with
    | none =>
      let (o', below) ← change origin edit path origin []
      return (o, es.set key (.table o' below))
    | some (.table .inline _) => none
    | some (.table .header below) =>
      -- a dotted key must not reach into a table that has a header of its own
      if origin = .dotted then none
      else
        let (o', below) ← change origin edit path .header below
        return (o, es.set key (.table o' below))
    | some (.table o' below) =>
      let (o', below) ← change origin edit path o' below
      return (o, es.set key (.table o' below))
    | some (.tables (latest :: earlier)) =>
      let (_, latest) ← change origin edit path .header latest
      return (o, es.set key (.tables (latest :: earlier)))
    | some _ => none

-- A table that a dotted key reaches must have come about by dotted keys.
def assign? (path : List String) (key : String) (value : Toml) (o : Origin) (es : Entries) :
    Option (Origin × Entries) :=
  change .dotted
    (fun reached below =>
      if (path ≠ [] ∧ reached ≠ .dotted) ∨ (below.get? key).isSome then none
      else some (reached, below ++ [(key, value)]))
    path o es

def open? (path : List String) (key : String) (es : Entries) : Option Entries := do
  let (_, es) ← change .implied
    (fun reached below =>
      match below.get? key with
      | none => some (reached, below ++ [(key, .table .header [])])
      | some (.table .implied inner) => some (reached, below.set key (.table .header inner))
      | some _ => none)
    path .header es
  return es

def openNext? (path : List String) (key : String) (es : Entries) : Option Entries := do
  let (_, es) ← change .implied
    (fun reached below =>
      match below.get? key with
      | none => some (reached, below ++ [(key, .tables [[]])])
      | some (.tables items) => some (reached, below.set key (.tables ([] :: items)))
      | some _ => none)
    path .header es
  return es

def assignIn? (header : List String) (path : List String) (key : String) (value : Toml)
    (es : Entries) : Option Entries := do
  let (_, es) ← change .implied (assign? path key value) header .header es
  return es

end Entries

end Toml

namespace Toml.Scalar

open Decimal

def digits? (ok : Char → Bool) (cs : List Char) : Option (List Char) := go false cs
where
  go (afterDigit : Bool) : List Char → Option (List Char)
    | [] => if afterDigit then some [] else none
    | c :: rest =>
      if c = '_' then if afterDigit then go false rest else none
      else if ok c then (go true rest).map (c :: ·)
      else none

def whole? (cs : List Char) : Option (List Char) := do
  let ds ← digits? (·.isDigit) cs
  if ds.head? = some '0' ∧ ds.length ≠ 1 then none else some ds

def signed : List Char → Bool × List Char
  | '+' :: cs => (false, cs)
  | '-' :: cs => (true, cs)
  | cs => (false, cs)

def digitValue (c : Char) : Nat :=
  if c.isDigit then c.toNat - '0'.toNat else c.toLower.toNat - 'a'.toNat + 10

def inBase (base : Nat) (ds : List Char) : Nat := ds.foldl (fun n c => base * n + digitValue c) 0

def isHex (c : Char) : Bool := c.isDigit || ('a' ≤ c.toLower && c.toLower ≤ 'f')

def isOctal (c : Char) : Bool := '0' ≤ c && c ≤ '7'

def isBinary (c : Char) : Bool := c = '0' || c = '1'

def integer? (cs : List Char) : Option Int := do
  let n : Int ← match cs with
    | '0' :: 'x' :: ds => (digits? isHex ds).map fun ds => (inBase 16 ds : Int)
    | '0' :: 'o' :: ds => (digits? isOctal ds).map fun ds => (inBase 8 ds : Int)
    | '0' :: 'b' :: ds => (digits? isBinary ds).map fun ds => (inBase 2 ds : Int)
    | cs =>
      let (negative, ds) := signed cs
      (whole? ds).map fun ds => if negative then -(inBase 10 ds : Int) else inBase 10 ds
  if -twoPow 63 ≤ n ∧ n < twoPow 63 then some n else none

def cut (p : Char → Bool) (cs : List Char) : List Char × Option (List Char) :=
  match cs.dropWhile (!p ·) with
  | [] => (cs, none)
  | _ :: rest => (cs.takeWhile (!p ·), some rest)

def numeral? (cs : List Char) : Option Numeral := do
  let (negative, cs) := signed cs
  let (mantissa, power) := cut (fun c => c = 'e' || c = 'E') cs
  let (whole, fraction) := cut (· = '.') mantissa
  if power = none ∧ fraction = none then none
  else
    let whole ← whole? whole
    let fraction ← fraction.mapM (digits? (·.isDigit))
    let exponent ← power.mapM fun cs => do
      let (negative, ds) := signed cs
      return (negative, ← digits? (·.isDigit) ds)
    return ⟨negative, whole, fraction, exponent⟩

def float? (cs : List Char) : Option Float :=
  match signed cs with
  | (negative, ['i', 'n', 'f']) => some (if negative then -1.0 / 0.0 else 1.0 / 0.0)
  | (_, ['n', 'a', 'n']) => some (0.0 / 0.0)
  | _ => do
    let x := (← numeral? cs).toFloat
    -- only the positive infinity counts as too large
    if x == 1.0 / 0.0 then none else some x

def ofWord? (cs : List Char) : Option Toml :=
  if cs = "true".toList then some (.bool true)
  else if cs = "false".toList then some (.bool false)
  else (integer? cs).map .integer |>.or ((float? cs).map .float)

end Toml.Scalar

end DependencyAtlas
