import DependencyAtlas.Geometry
import DependencyAtlas.Traversal

set_option autoImplicit false

namespace DependencyAtlas.Layout

structure Slot where
  node : Node
  level : Nat
  offset : Nat
deriving DecidableEq, Repr

structure Tally where
  next : Nat := 0
  slots : Array Slot := #[]

namespace Tally

def hooks : Hooks Tally where
  offset t _ := t.next
  advance t _ := { t with next := t.next + 1 }
  assign t n level offset := { t with slots := t.slots.push ⟨n, level, offset⟩ }

end Tally

namespace Linear

structure Spacing (α : Type := Float) where
  horizontal : α
  vertical : α

def tally (h : Hierarchy) : Tally :=
  (Traversal.placeRoots h Tally.hooks h.roots ⟨∅, {}⟩).state

def slots (h : Hierarchy) : List Slot := (tally h).slots.toList

variable {α : Type} [Mul α] [Coordinate α]

open Coordinate in
def point (s : Spacing α) (slot : Slot) : Point α :=
  ⟨ofNat slot.level * s.horizontal, ofNat slot.offset * s.vertical⟩

def positions (s : Spacing α) (h : Hierarchy) : Positions α :=
  (slots h).foldl (fun p slot => p.insert slot.node.id (point s slot)) ∅

def event (h : Hierarchy) : Event :=
  ⟨.info,
    s!"Linear layout placed {(slots h).length} node(s) over {(tally h).next} leaf slot(s)"⟩

end Linear

namespace Radial

def rootLevel (roots : Nat) : Nat :=
  if roots ≤ 1 then 0 else if roots ≤ 3 then 1 else if roots ≤ 9 then 2 else 3

def deeper (deepest : Option Nat) (level : Nat) : Option Nat :=
  some (match deepest with
    | none => level
    | some d => max d level)

-- The survey counts the offsets and finds the deepest level; the placing gives out the slots.
structure Survey where
  next : Nat := 0
  deepest : Option Nat := none
deriving DecidableEq, Repr

def Survey.hooks : Hooks Survey where
  offset s _ := s.next
  advance s _ := { s with next := s.next + 1 }
  assign s _ level _ := { s with deepest := deeper s.deepest level }
  rootLevel _ roots := Radial.rootLevel roots.size

structure Placing where
  next : Nat := 0
  deepest : Option Nat := none
  slots : Array Slot := #[]

def Placing.hooks : Hooks Placing where
  offset s _ := s.next
  advance s _ := { s with next := s.next + 1 }
  assign s n level offset :=
    { s with deepest := deeper s.deepest level, slots := s.slots.push ⟨n, level, offset⟩ }
  rootLevel _ roots := Radial.rootLevel roots.size

def survey (h : Hierarchy) : Survey :=
  (Traversal.placeRoots h Survey.hooks h.innerRoots ⟨∅, {}⟩).state

def circumference (h : Hierarchy) : Nat := max (max (survey h).next h.orphans.size) 1

def orphanLevel (h : Hierarchy) : Nat :=
  match (survey h).deepest with
  | none => 0
  | some level => level + 1

def placing (h : Hierarchy) : Placing :=
  (Traversal.placeRoots h Placing.hooks h.innerRoots ⟨∅, {}⟩).state

def treeSlots (h : Hierarchy) : List Slot := (placing h).slots.toList

def orphanSlots (h : Hierarchy) : List Slot :=
  -- their offsets start at zero again, on a ring without other nodes
  let level := orphanLevel h
  h.orphans.toList.zipIdx.map fun (n, offset) => ⟨n, level, offset⟩

def slots (h : Hierarchy) : List Slot := treeSlots h ++ orphanSlots h

variable {α : Type} [Mul α] [Div α] [Coordinate α]

open Coordinate in
def point (spacing : α) (around : Nat) (slot : Slot) : Point α :=
  .polar (ofNat slot.offset * (fullTurn / ofNat around)) (ofNat slot.level * spacing)

def positions (spacing : α) (h : Hierarchy) : Positions α :=
  let around := circumference h
  (slots h).foldl (fun p slot => p.insert slot.node.id (point spacing around slot)) ∅

def event (h : Hierarchy) : Event :=
  let placed := (slots h).length
  let main := s!"Radial layout placed {placed} node(s): circumference {circumference h}"
  let rest := s!"{h.orphans.size} orphan(s) on ring {orphanLevel h}"
  ⟨.info, s!"{main}, {rest}"⟩

end Radial

end DependencyAtlas.Layout
