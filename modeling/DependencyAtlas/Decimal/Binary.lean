set_option autoImplicit false

namespace DependencyAtlas.Decimal

def twoPow (n : Nat) : Nat := Nat.pow 2 n

def tenPow (n : Nat) : Nat := Nat.pow 10 n

-- A zero is finite with significand zero.
inductive Binary where
  | nan
  | infinite (negative : Bool)
  | finite (negative : Bool) (significand : Nat) (exponent : Int)
deriving DecidableEq, Repr

namespace Binary

def ofBits (bits : UInt64) : Binary :=
  let word := bits.toNat
  let negative := word / twoPow 63 == 1
  let biased : Nat := word / twoPow 52 % twoPow 11
  let fraction := word % twoPow 52
  if biased = 2047 then if fraction = 0 then .infinite negative else .nan
  else if biased = 0 then .finite negative fraction (-1074)
  else .finite negative (twoPow 52 + fraction) (biased - 1075)

def ofFloat (x : Float) : Binary := ofBits x.toBits

end Binary

inductive Tie where
  | up | toEven
deriving DecidableEq, Repr

def roundDiv (num den : Nat) (tie : Tie) : Nat :=
  let low := num / den
  let rest := 2 * (num % den)
  if rest < den then low
  else if den < rest then low + 1
  else match tie with
    | .up => low + 1
    | .toEven => low + low % 2

theorem roundDiv_near (num den : Nat) (tie : Tie) (h : 0 < den) :
    2 * num ≤ 2 * (den * roundDiv num den tie) + den ∧
      2 * (den * roundDiv num den tie) ≤ 2 * num + den := by
  have split := Nat.div_add_mod num den
  have small := Nat.mod_lt num h
  have next : den * (num / den + 1) = den * (num / den) + den := Nat.mul_succ ..
  simp only [roundDiv]
  split
  · omega
  · split
    · omega
    · cases tie with
      | up =>
        simp only
        omega
      | toEven =>
        rcases Nat.mod_two_eq_zero_or_one (num / den) with even | odd
        · simp only [even, Nat.add_zero]
          omega
        · simp only [odd]
          omega

structure Ratio where
  num : Nat
  den : Nat
deriving DecidableEq, Repr

namespace Ratio

def scaleTwo (n : Nat) (e : Int) : Ratio := ⟨n * twoPow e.toNat, twoPow (-e).toNat⟩

def scaleTen (r : Ratio) (e : Int) : Ratio := ⟨r.num * tenPow e.toNat, r.den * tenPow (-e).toNat⟩

def belowTen (r : Ratio) (e : Int) : Bool := r.num * tenPow (-e).toNat < r.den * tenPow e.toNat

def magnitude (r : Ratio) : Int :=
  let bits : Int := (r.num.log2 : Int) - r.den.log2
  let near : Int := (bits * 30103) / 100000
  if r.belowTen (near - 1) then near - 1
  else if r.belowTen near then near
  else if r.belowTen (near + 1) then near + 1
  else near + 2

-- The quotient lies from `2 ^ 52` up to below `2 ^ 53` of these, unless they are below the least.
def lastPlace (r : Ratio) : Int :=
  let near : Int := (r.num.log2 : Int) - r.den.log2 - 52
  let short := r.num * twoPow (-near).toNat < r.den * twoPow near.toNat * twoPow 52
  max (if short then near - 1 else near) (-1074)

-- The bits of the significand carry over into those of the exponent.
def toFloat (r : Ratio) : Float :=
  let e := r.lastPlace
  let significand := roundDiv (r.num * twoPow (-e).toNat) (r.den * twoPow e.toNat) .toEven
  let word := significand + (e + 1074).toNat * twoPow 52
  Float.ofBits (UInt64.ofNat (min word (2047 * twoPow 52)))

end Ratio

end DependencyAtlas.Decimal
