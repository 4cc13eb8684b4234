import DependencyAtlas.Decimal.Binary

set_option autoImplicit false

namespace DependencyAtlas.Decimal

structure Numeral where
  negative : Bool
  whole : List Char
  fraction : Option (List Char)
  exponent : Option (Bool × List Char)
deriving DecidableEq, Repr

def digitsOf (cs : List Char) : List Char := cs.takeWhile (·.isDigit)

def afterDigits (cs : List Char) : List Char := cs.dropWhile (·.isDigit)

def natOfDigits (cs : List Char) : Nat := cs.foldl (fun n c => 10 * n + (c.toNat - '0'.toNat)) 0

namespace Numeral

def scanExponent? : List Char → Option (Option (Bool × List Char))
  | [] => some none
  | mark :: rest =>
    if mark = 'e' ∨ mark = 'E' then
      match rest with
      | '-' :: ds => digits true ds
      | '+' :: ds => digits false ds
      | ds => digits false ds
    else none
where
  digits (negative : Bool) (ds : List Char) : Option (Option (Bool × List Char)) :=
    if ds ≠ [] ∧ afterDigits ds = [] then some (some (negative, ds)) else none

def scanMagnitude? (negative : Bool) (cs : List Char) : Option Numeral :=
  match afterDigits cs with
  | '.' :: rest => do
    return ⟨negative, digitsOf cs, some (digitsOf rest), ← scanExponent? (afterDigits rest)⟩
  | rest => do return ⟨negative, digitsOf cs, none, ← scanExponent? rest⟩

def scan? : List Char → Option Numeral
  | '-' :: cs => scanMagnitude? true cs
  | cs => scanMagnitude? false cs

def fractionDigits (n : Numeral) : List Char := n.fraction.getD []

def power (n : Numeral) : Int :=
  match n.exponent with
  | none => 0
  | some (true, ds) => -(natOfDigits ds : Int)
  | some (false, ds) => natOfDigits ds

-- Far outside the range of doubles the number is not worked out.
def toFloat (n : Numeral) : Float :=
  let e := n.power - n.fractionDigits.length
  let digits := (n.whole ++ n.fractionDigits).dropWhile (· = '0')
  let top := e + digits.length
  let x :=
    if digits = [] ∨ top < -400 then 0.0
    else if 400 < top then 1.0 / 0.0
    else (Ratio.scaleTen ⟨natOfDigits digits, 1⟩ e).toFloat
  if n.negative then -x else x

end Numeral

def readFloat? (text : String) : Option Float :=
  match text.toList with
  | '+' :: cs => unsigned false cs
  | '-' :: cs => unsigned true cs
  | cs => unsigned false cs
where
  unsigned (negative : Bool) (cs : List Char) : Option Float :=
    let word := (String.ofList cs).toLower
    if word = "inf" ∨ word = "infinity" then some (if negative then -1.0 / 0.0 else 1.0 / 0.0)
    else if word = "nan" then some (0.0 / 0.0)
    else do
      let n ← Numeral.scanMagnitude? negative cs
      if n.whole = [] ∧ n.fractionDigits = [] then none else some n.toFloat

end DependencyAtlas.Decimal
