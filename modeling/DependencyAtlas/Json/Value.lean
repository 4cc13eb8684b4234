import DependencyAtlas.Decimal.Numeral
import DependencyAtlas.Decimal.Text

set_option autoImplicit false

namespace DependencyAtlas

namespace Json

-- None, if its escapes leave half of a surrogate pair alone.
abbrev Text := Option String

end Json

inductive Json where
  | null
  | bool (value : Bool)
  | number (literal : String)
  | string (text : Json.Text)
  | array (items : List Json)
  | object (fields : List (Json.Text × Json))
deriving Repr, Inhabited

namespace Json

def text (s : String) : Json := .string (some s)

def texts (l : List String) : Json := .array (l.map text)

def fields (l : List (String × Json)) : Json := .object (l.map fun (k, v) => (some k, v))

def nat (n : Nat) : Json := .number (toString n)

def float (x : Float) : Json :=
  match Decimal.json? x with
  | some literal => .number literal
  | none => .null

def escape (c : Char) : String :=
  match c with
  | '"' => "\\\""
  | '\\' => "\\\\"
  | '\x08' => "\\b"
  | '\x0c' => "\\f"
  | '\n' => "\\n"
  | '\r' => "\\r"
  | '\t' => "\\t"
  | c => if c.toNat < 32 then "\\u00" ++ hex (c.toNat / 16) ++ hex (c.toNat % 16) else c.toString
where
  hex (n : Nat) : String := (Nat.digitChar n).toString

def quote (s : String) : String := "\"" ++ String.join (s.toList.map escape) ++ "\""

def quoteText : Text → String
  | some s => quote s
  | none => "null"

mutual

def compact : Json → String
  | .null => "null"
  | .bool true => "true"
  | .bool false => "false"
  | .number literal => literal
  | .string s => quoteText s
  | .array items => "[" ++ ",".intercalate (compactItems items) ++ "]"
  | .object fields => "\x7b" ++ ",".intercalate (compactFields fields) ++ "\x7d"

def compactItems : List Json → List String
  | [] => []
  | v :: rest => v.compact :: compactItems rest

def compactFields : List (Text × Json) → List String
  | [] => []
  | (k, v) :: rest => (quoteText k ++ ":" ++ v.compact) :: compactFields rest

end

def newline (depth : Nat) : String := "\n" ++ String.ofList (List.replicate (2 * depth) ' ')

def block (opening closing : String) (depth : Nat) (parts : List String) : String :=
  if parts = [] then opening ++ closing
  else opening ++ newline (depth + 1) ++ ("," ++ newline (depth + 1)).intercalate parts
    ++ newline depth ++ closing

mutual

def pretty (depth : Nat) : Json → String
  | .null => "null"
  | .bool true => "true"
  | .bool false => "false"
  | .number literal => literal
  | .string s => quoteText s
  | .array items => block "[" "]" depth (prettyItems (depth + 1) items)
  | .object fields => block "\x7b" "\x7d" depth (prettyFields (depth + 1) fields)

def prettyItems (depth : Nat) : List Json → List String
  | [] => []
  | v :: rest => v.pretty depth :: prettyItems depth rest

def prettyFields (depth : Nat) : List (Text × Json) → List String
  | [] => []
  | (k, v) :: rest => (quoteText k ++ ": " ++ v.pretty depth) :: prettyFields depth rest

end

end Json

namespace Json.Number

open Decimal

def parts? (literal : List Char) : Option Numeral := do
  let n ← Numeral.scan? literal
  if n.whole = [] ∨ n.fraction = some [] then none
  else if n.whole.head? = some '0' ∧ n.whole.length ≠ 1 then none
  else some n

-- Reading is not correctly rounded: digits that do not fit into 64 bits are dropped, and one
-- multiplication or division by a power of ten follows.
structure Gathered where
  significand : Nat
  power : Int
  full : Bool

namespace Gathered

def takes (g : Gathered) (digit : Char) : Option Nat :=
  let n := g.significand * 10 + (digit.toNat - '0'.toNat)
  if n < twoPow 64 then some n else none

def whole (g : Gathered) (digit : Char) : Gathered :=
  match if g.full then none else g.takes digit with
  | some n => { g with significand := n }
  | none => { g with power := g.power + 1, full := true }

def fraction (g : Gathered) (digit : Char) : Gathered :=
  match if g.full then none else g.takes digit with
  | some n => { g with significand := n, power := g.power - 1 }
  | none => { g with full := true }

def ofNumeral (n : Numeral) : Gathered :=
  let before := n.whole.foldl whole ⟨0, 0, false⟩
  -- a short fraction may still fit where the whole part did not
  n.fractionDigits.foldl fraction { before with full := false }

end Gathered

def powerLimit : Int := 308

def powerOfTen (e : Nat) : Float := Ratio.toFloat ⟨tenPow e, 1⟩

def scale? (x : Float) (e : Int) : Option Float :=
  if _h : e < -powerLimit then
    if x == 0 then some x else scale? (x / powerOfTen 308) (e + powerLimit)
  else if e ≤ powerLimit then
    if 0 ≤ e then
      let y := x * powerOfTen e.toNat
      if y.isInf then none else some y
    else some (x / powerOfTen e.natAbs)
  else if x == 0 then some x
  else none
termination_by (-e).toNat
decreasing_by simp only [powerLimit] at *; omega

def worth? (literal : String) : Option Float := do
  let n ← parts? literal.toList
  let g := Gathered.ofNumeral n
  let x ← scale? (UInt64.ofNat g.significand).toFloat (g.power + n.power)
  return if n.negative then -x else x

end Json.Number

end DependencyAtlas
