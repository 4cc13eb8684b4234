import DependencyAtlas.Proofs.Hierarchy.Steps
import DependencyAtlas.Proofs.Traversal.Coverage

set_option autoImplicit false

namespace DependencyAtlas

theorem append_eq_append_cons {α : Type} {first second earlier later : List α} {p : α}
    (split : first ++ second = earlier ++ p :: later) :
    (∃ rest, first = earlier ++ p :: rest ∧ later = rest ++ second) ∨
      ∃ rest, earlier = first ++ rest ∧ second = rest ++ p :: later := by
  rcases List.append_eq_append_iff.1 split with ⟨rest, front, back⟩ | ⟨rest, front, back⟩
  · exact .inr ⟨rest, front, back⟩
  · cases rest with
    | nil => exact .inr ⟨[], by simp [front], by simpa using back.symm⟩
    | cons q rest =>
      obtain ⟨here, after⟩ := List.cons.inj back
      exact .inl ⟨rest, here ▸ front, after⟩

namespace Hierarchy

variable {h : Hierarchy} {c m n p : Node}

theorem children_congr (same : m.id = n.id) : h.children m = h.children n := by
  rw [children, children, same]

theorem ne_id_of_child (child : c ∈ (h.children p).toList) : c.id ≠ p.id := by
  intro same
  have self := NodeSet.mem_toList.1 child
  rw [children, same, h.irreflexive] at self
  cases self

def Returns (h : Hierarchy) (c p : Node) : Prop := ∃ m, h.Reaches c m ∧ m.id = p.id

theorem Returns.onCycle (returns : h.Returns c p) (child : c ∈ (h.children p).toList) :
    ∃ m, h.OnCycle m ∧ m.id = p.id := by
  obtain ⟨m, back, same⟩ := returns
  exact ⟨m, ⟨c, children_congr same ▸ child, same ▸ ne_id_of_child child, back⟩, same⟩

-- Only ids tell nodes apart: a node of the same id has the same children.
theorem returns_of_child (same : c.id = n.id) (child : m ∈ (h.children n).toList)
    (reaches : h.Reaches m p) : h.Returns c p :=
  ⟨p, .step (children_congr same ▸ child) reaches, rfl⟩

end Hierarchy

namespace Traversal

open Hierarchy (ne_id_of_child returns_of_child)

variable {h : Hierarchy} {cs : List Node} {visited after : NodeSet} {forest : Forest} {σ : Type}

-- Each listed node comes after its children, those apart that return to it.
def ChildrenFirst (h : Hierarchy) (order : List Node) : Prop :=
  ∀ earlier p later, order = earlier ++ p :: later → ∀ c ∈ (h.children p).toList,
    c.id ∈ earlier.map (·.id) ∨ h.Returns c p

-- The nodes that are entered and not done enclose the forest: what is visited when a node is entered
-- is visited for all that is below it, the node itself too, which reaches everything there.
theorem Grows.child_before (grows : Grows h cs visited forest after) {earlier later : List Node}
    {p c : Node} (split : forest.nodes = earlier ++ p :: later) (child : c ∈ (h.children p).toList) :
    c ∈ visited ∨ c.id ∈ earlier.map (·.id) ∨ h.Returns c p := by
  induction grows generalizing earlier later with
  | done => simp at split
  | skip _ _ ih => exact ih split
  | @enter n _ visited _ _ below beside _ growsBelow _ ihBelow ihBeside =>
    rcases append_eq_append_cons split with ⟨rest, inBelow, -⟩ | ⟨rest, done, others⟩
    · rcases ihBelow inBelow with entered | before
      · rcases NodeSet.mem_add.1 entered with known | self
        · exact .inl known
        · obtain ⟨d, hd, reaches⟩ := growsBelow.reached p (by simp [inBelow])
          exact .inr (.inr (returns_of_child self (mem_orderedChildren.1 hd).1 reaches))
      · exact .inr before
    · cases rest with
      | nil =>
        obtain ⟨rfl, -⟩ := List.cons.inj others
        rw [List.append_nil] at done
        by_cases entered : c ∈ visited.add n
        · exact .inl ((NodeSet.mem_add.1 entered).resolve_right (ne_id_of_child child))
        · have started := growsBelow.starts_visited c (mem_orderedChildren.2 ⟨child, entered⟩)
          exact .inr (.inl (done ▸ (growsBelow.mem_after.1 started).resolve_left entered))
      | cons m rest =>
        obtain ⟨rfl, inBeside⟩ := List.cons.inj others
        have front : earlier.map (·.id) = below.ids ++ n.id :: rest.map (·.id) := by
          rw [done, List.map_append, List.map_cons, Forest.ids]
        rw [front, List.mem_append, List.mem_cons]
        rcases ihBeside inBeside with between | before | returns
        · rcases growsBelow.mem_after.1 between with entered | inBelow
          · rcases NodeSet.mem_add.1 entered with known | self
            · exact .inl known
            · exact .inr (.inl (.inr (.inl self)))
          · exact .inr (.inl (.inl inBelow))
        · exact .inr (.inl (.inr (.inr before)))
        · exact .inr (.inr returns)

structure InOrder (h : Hierarchy) (visited : NodeSet) (order : List Node) : Prop where
  nodup : (order.map (·.id)).Nodup
  visited_iff : ∀ id, (visited.find? id).isSome ↔ id ∈ order.map (·.id)
  closed : h.Closed visited
  childrenFirst : ChildrenFirst h order

namespace InOrder

variable {order earlier later : List Node} {p c : Node}

theorem start (h : Hierarchy) : InOrder h ∅ [] where
  nodup := List.nodup_nil
  visited_iff := by simp
  closed := Hierarchy.closed_empty
  childrenFirst := by simp [ChildrenFirst]

theorem grow (inOrder : InOrder h visited order) (grows : Grows h cs visited forest after) :
    InOrder h after (order ++ forest.nodes) where
  nodup := by
    rw [List.map_append]
    refine List.nodup_append.2 ⟨inOrder.nodup, grows.ids_nodup, ?_⟩
    intro id before other new same
    exact grows.fresh other new ((inOrder.visited_iff other).2 (same ▸ before))
  visited_iff id := by
    rw [grows.visited_iff, inOrder.visited_iff, List.map_append, List.mem_append]
    rfl
  closed := grows.closed_after inOrder.closed
  childrenFirst := by
    intro earlier p later split c child
    rcases append_eq_append_cons split with ⟨rest, old, -⟩ | ⟨rest, done, new⟩
    · exact inOrder.childrenFirst earlier p rest old c child
    · rw [done, List.map_append, List.mem_append]
      rcases grows.child_before new child with known | before | returns
      · exact .inl (.inl ((inOrder.visited_iff c.id).1 (NodeSet.mem_iff.1 known)))
      · exact .inl (.inr before)
      · exact .inr returns

theorem child_mem (inOrder : InOrder h visited order) (split : order = earlier ++ p :: later)
    (child : c ∈ (h.children p).toList) :
    c.id ∈ earlier.map (·.id) ∨ c.id ∈ later.map (·.id) := by
  have parent : p ∈ visited := NodeSet.mem_iff.2 ((inOrder.visited_iff p.id).2 (by simp [split]))
  have placed := (inOrder.visited_iff c.id).1 (NodeSet.mem_iff.1 (inOrder.closed p parent c child))
  rw [split, List.map_append, List.map_cons, List.mem_append, List.mem_cons] at placed
  rcases placed with before | self | after
  · exact .inl before
  · exact absurd self (ne_id_of_child child)
  · exact .inr after

theorem returns_of_later (inOrder : InOrder h visited order) (split : order = earlier ++ p :: later)
    (child : c ∈ (h.children p).toList) (after : c.id ∈ later.map (·.id)) : h.Returns c p := by
  refine (inOrder.childrenFirst earlier p later split c child).resolve_left fun before => ?_
  have nodup := inOrder.nodup
  rw [split, List.map_append, List.map_cons, List.nodup_append] at nodup
  exact nodup.2.2 c.id before c.id (List.mem_cons_of_mem _ after) rfl

theorem earlier_of_acyclic (inOrder : InOrder h visited order)
    (split : order = earlier ++ p :: later) (child : c ∈ (h.children p).toList)
    (acyclic : ∀ n, ¬ h.OnCycle n) : c.id ∈ earlier.map (·.id) := by
  refine (inOrder.childrenFirst earlier p later split c child).resolve_right fun returns => ?_
  obtain ⟨m, cycle, -⟩ := returns.onCycle child
  exact acyclic m cycle

end InOrder

-- A child that is assigned after its parent reaches it again.
theorem placeInTurn_children_first (h : Hierarchy) (hooks : Hooks σ) (s : σ)
    (series : List NodeSet) :
    let ran := placeInTurn h hooks.recorded series ⟨∅, (s, [])⟩
    let order := Call.nodes ran.state.2
    placeInTurn h hooks series ⟨∅, s⟩ = ⟨ran.visited, ran.state.1⟩ ∧
      (order.map (·.id)).Nodup ∧
      ∀ earlier p later, order = earlier ++ p :: later → ∀ c ∈ (h.children p).toList,
        (c.id ∈ earlier.map (·.id) ∨ c.id ∈ later.map (·.id)) ∧
        (c.id ∈ later.map (·.id) → h.Returns c p ∧ ∃ m, h.OnCycle m ∧ m.id = p.id) ∧
        ((∀ n, ¬ h.OnCycle n) → c.id ∈ earlier.map (·.id)) := by
  intro ran order
  obtain ⟨visited, state, past, plain, recorded, inOrder⟩ :=
    placeInTurn_induction h hooks s series (fun _ => InOrder h) (.start h) .grow
  have done : ran = ⟨visited, (state, past)⟩ := recorded
  have listed : order = Call.nodes past := congrArg (fun p => Call.nodes p.state.2) done
  rw [listed, done, plain]
  refine ⟨rfl, inOrder.nodup, fun earlier p later split c child => ⟨inOrder.child_mem split child,
    fun after => ?_, inOrder.earlier_of_acyclic split child⟩⟩
  have returns := inOrder.returns_of_later split child after
  exact ⟨returns, returns.onCycle child⟩

end Traversal

end DependencyAtlas
