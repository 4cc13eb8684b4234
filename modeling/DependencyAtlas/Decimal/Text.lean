import DependencyAtlas.Decimal.Binary

set_option autoImplicit false

namespace DependencyAtlas.Decimal

structure Digits where
  coefficient : Nat
  exponent : Int
deriving DecidableEq, Repr

namespace Digits

def trimmed (d : Digits) : Digits :=
  if h : d.coefficient ≠ 0 ∧ d.coefficient % 10 = 0 then
    trimmed ⟨d.coefficient / 10, d.exponent + 1⟩
  else d
termination_by d.coefficient
decreasing_by omega

-- What is nearer to one double than to any other; the ends belong to it if the significand is even.
structure Cell where
  low : Ratio
  high : Ratio
  closed : Bool

-- At a power of two the lower neighbour is only half as far away.
def cell (significand : Nat) (exponent : Int) : Cell where
  low := .scaleTwo
    (4 * significand - if significand = twoPow 52 ∧ -1074 < exponent then 1 else 2) (exponent - 2)
  high := .scaleTwo (4 * significand + 2) (exponent - 2)
  closed := significand % 2 = 0

namespace Cell

def holds (c : Cell) (n : Nat) (e : Int) : Bool :=
  let v := Ratio.scaleTen ⟨n, 1⟩ e
  let a := c.low.num * v.den
  let b := v.num * c.low.den
  let x := v.num * c.high.den
  let y := c.high.num * v.den
  if c.closed then a ≤ b && x ≤ y else a < b && x < y

-- One of the two neighbours of `r` on the grid `10 ^ e`, if there is any in the cell.
def nearest? (c : Cell) (r : Ratio) (e : Int) (tie : Tie) : Option Nat :=
  let scaled := r.scaleTen (-e)
  let low := scaled.num / scaled.den
  match c.holds low e && low != 0, c.holds (low + 1) e with
  | true, true => some (roundDiv scaled.num scaled.den tie)
  | true, false => some low
  | false, true => some (low + 1)
  | false, false => none

end Cell

def shortest (significand : Nat) (exponent : Int) (tie : Tie) : Digits :=
  let r := Ratio.scaleTwo significand exponent
  let c := cell significand exponent
  let top := r.magnitude
  let found := (List.range 17).findSome? fun (n : Nat) =>
    let e := top - (n + 1 : Nat)
    (c.nearest? r e tie).map fun d => (⟨d, e⟩ : Digits)
  (found.getD ⟨0, 0⟩).trimmed

def rounded (significand : Nat) (exponent : Int) (count : Nat) : Digits :=
  let r := Ratio.scaleTwo significand exponent
  let e := r.magnitude - count
  let scaled := r.scaleTen (-e)
  let d := roundDiv scaled.num scaled.den .toEven
  if d = tenPow count then ⟨d / 10, e + 1⟩ else ⟨d, e⟩

end Digits

def zeros (n : Nat) : String := String.ofList (List.replicate n '0')

def sign (negative : Bool) : String := if negative then "-" else ""

def pointed (digits : String) : String :=
  if digits.length ≤ 1 then digits else s!"{digits.take 1}.{digits.drop 1}"

namespace Digits

def positional (d : Digits) : String :=
  let digits := toString d.coefficient
  if 0 ≤ d.exponent then digits ++ zeros d.exponent.toNat
  else
    let places := (-d.exponent).toNat
    let padded := zeros (places + 1 - digits.length) ++ digits
    let whole := padded.length - places
    s!"{padded.take whole}.{padded.drop whole}"

def leading (d : Digits) : Int := d.exponent + ((toString d.coefficient).length - 1 : Nat)

end Digits

def plain (x : Float) : String :=
  match Binary.ofFloat x with
  | .nan => "NaN"
  | .infinite negative => sign negative ++ "inf"
  | .finite negative significand exponent =>
    sign negative ++
      if significand = 0 then "0"
      else (Digits.shortest significand exponent .up).positional

def scientific (x : Float) (places : Nat) : String :=
  match Binary.ofFloat x with
  | .nan => "NaN"
  | .infinite negative => sign negative ++ "inf"
  | .finite negative significand exponent =>
    if significand = 0 then s!"{sign negative}{pointed (zeros (places + 1))}e0"
    else
      let d := Digits.rounded significand exponent (places + 1)
      s!"{sign negative}{pointed (toString d.coefficient)}e{d.leading}"

def json? (x : Float) : Option String :=
  match Binary.ofFloat x with
  | .nan => none
  | .infinite _ => none
  | .finite negative significand exponent => some <| sign negative ++
    if significand = 0 then "0.0"
    else
      let d := Digits.shortest significand exponent .toEven
      let top := d.leading
      if -5 ≤ top ∧ top < 16 then
        if 0 ≤ d.exponent then s!"{d.positional}.0" else d.positional
      else
        let plus := if 0 ≤ top then "+" else ""
        s!"{pointed (toString d.coefficient)}e{plus}{top}"

end DependencyAtlas.Decimal
