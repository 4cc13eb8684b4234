import DependencyAtlas.Node
import Std.Data.ExtTreeMap

set_option autoImplicit false

namespace DependencyAtlas

-- Doubles when it runs, rationals where exact arithmetic is wanted; only doubles can be absent.
class Scalar (α : Type) where
  zero : α
  one : α
  two : α
  less : α → α → Bool
  absent : α → Bool

namespace Scalar

variable {α : Type} [Scalar α]

def positive (x : α) : Bool := less zero x

def least (a b : α) : α := if absent a || less b a then b else a

def greatest (a b : α) : α := if absent a || less a b then b else a

def clamp (x : α) : α := if positive x then x else zero

end Scalar

instance : Scalar Float where
  zero := 0.0
  one := 1.0
  two := 2.0
  less a b := a < b
  absent := Float.isNaN

instance : Scalar Rat where
  zero := 0
  one := 1
  two := 2
  less a b := a < b
  absent _ := false

structure Point (α : Type) where
  x : α
  y : α
deriving DecidableEq, Repr

structure Bounds (α : Type) where
  low : Point α
  high : Point α
deriving DecidableEq, Repr

abbrev Positions (α : Type) := Std.ExtTreeMap String (Point α)

section

variable {α : Type} [Add α] [Sub α] [Mul α] [Div α] [Scalar α]

namespace Bounds

open Scalar

def ofPoint (p : Point α) : Bounds α := ⟨p, p⟩

def extend (b : Bounds α) (p : Point α) : Bounds α where
  low := ⟨least b.low.x p.x, least b.low.y p.y⟩
  high := ⟨greatest b.high.x p.x, greatest b.high.y p.y⟩

def width (b : Bounds α) : α := b.high.x - b.low.x

def height (b : Bounds α) : α := b.high.y - b.low.y

def center (b : Bounds α) : Point α := ⟨(b.low.x + b.high.x) / two, (b.low.y + b.high.y) / two⟩

end Bounds

namespace Positions

open Scalar

def points {β : Type} (p : Positions β) : List (Point β) := p.toList.map (·.2)

def bounds? (p : Positions α) : Option (Bounds α) :=
  match p.points with
  | [] => none
  | first :: rest => some (rest.foldl .extend (.ofPoint first))

def only {β : Type} (p : Positions β) (nodes : NodeSet) : Positions β :=
  p.filter fun id _ => (nodes.find? id).isSome

def inner (side margin : α) : α := clamp (side - two * margin)

def stretch? (extent room : α) : Option α := if positive extent then some (room / extent) else none

def scale (b : Bounds α) (width height margin : α) : α :=
  match stretch? b.width (inner width margin), stretch? b.height (inner height margin) with
  | some x, some y => least x y
  | some s, none => s
  | none, some s => s
  | none, none => one

def place (source target : Point α) (factor : α) (p : Point α) : Point α :=
  ⟨target.x + (p.x - source.x) * factor, target.y + (p.y - source.y) * factor⟩

def fit (p : Positions α) (width height margin : α) : Positions α :=
  match p.bounds? with
  | none => ∅
  | some b =>
    let factor := scale b width height margin
    p.map fun _ q => place b.center ⟨width / two, height / two⟩ factor q

end Positions

end

-- Doubles when layouts run, reals where exact arithmetic is wanted.
class Coordinate (α : Type) where
  ofNat : Nat → α
  fullTurn : α
  cos : α → α
  sin : α → α

instance : Coordinate Float where
  ofNat := Nat.toFloat
  fullTurn := 6.283185307179586
  cos := Float.cos
  sin := Float.sin

namespace Point

def polar {α : Type} [Mul α] [Coordinate α] (angle radius : α) : Point α :=
  ⟨Coordinate.cos angle * radius, Coordinate.sin angle * radius⟩

-- Scaled by a power of two first, so that no square overflows.
def radius (p : Point Float) : Float :=
  let x := p.x.abs
  let y := p.y.abs
  if x.isInf || y.isInf then 1.0 / 0.0
  else if x.isNaN || y.isNaN then 0.0 / 0.0
  else
    let e := ((if x < y then y else x).frExp).2
    let u := x.scaleB (-e)
    let v := y.scaleB (-e)
    (Float.sqrt (u * u + v * v)).scaleB e

def equal (p q : Point Float) : Bool := p.x == q.x && p.y == q.y

end Point

def Positions.equal (p q : Positions Float) : Bool :=
  p.size == q.size &&
    (p.toList.zip q.toList).all fun (a, b) => a.1 == b.1 && a.2.equal b.2

end DependencyAtlas
