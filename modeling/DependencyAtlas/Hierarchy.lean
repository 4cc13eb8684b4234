import DependencyAtlas.Graph

set_option autoImplicit false

namespace DependencyAtlas

abbrev Neighbours := Std.ExtTreeMap String NodeSet

namespace Neighbours

def beside (m : Neighbours) (id : String) : NodeSet := m[id]?.getD ∅

def add (m : Neighbours) (pair : Node × Node) : Neighbours :=
  m.alter pair.1.id fun s => some ((s.getD ∅).add pair.2)

def of (pairs : List (Node × Node)) : Neighbours := pairs.foldl add ∅

theorem beside_add (m : Neighbours) (pair : Node × Node) (id : String) :
    (m.add pair).beside id = if pair.1.id = id then (m.beside id).add pair.2 else m.beside id := by
  unfold beside add
  rw [Std.ExtTreeMap.getElem?_alter]
  by_cases h : pair.1.id = id
  · subst h
    simp
  · simp [h]

theorem find?_beside_foldl_add (pairs : List (Node × Node)) (m : Neighbours) (a b : String) :
    ((pairs.foldl add m).beside a).find? b = ((m.beside a).find? b).or
      ((pairs.find? fun p => p.1.id == a && p.2.id == b).map (·.2)) := by
  induction pairs generalizing m with
  | nil => simp
  | cons p rest ih =>
    rw [List.foldl_cons, ih, beside_add, List.find?_cons]
    by_cases ha : p.1.id = a
    · rw [if_pos ha, NodeSet.find?_add]
      by_cases hb : p.2.id = b <;> simp [ha, hb, beq_eq_false_iff_ne.2]
    · simp [ha, beq_eq_false_iff_ne.2]

theorem find?_beside_of (pairs : List (Node × Node)) (a b : String) :
    ((of pairs).beside a).find? b
      = (pairs.find? fun p => p.1.id == a && p.2.id == b).map (·.2) := by
  rw [of, find?_beside_foldl_add]
  simp [beside]

theorem isSome_find?_beside_of (pairs : List (Node × Node)) (a b : String) :
    (((of pairs).beside a).find? b).isSome ↔ ∃ p ∈ pairs, p.1.id = a ∧ p.2.id = b := by
  rw [find?_beside_of, Option.isSome_map, List.find?_isSome]
  simp

end Neighbours

-- Nodes may have several parents and lie on cycles.
structure Hierarchy where
  nodes : NodeSet
  childSets : Neighbours
  parentSets : Neighbours
  children_within : ∀ id, (childSets.beside id).Within nodes
  parents_within : ∀ id, (parentSets.beside id).Within nodes
  converse : ∀ a b, ((childSets.beside a).find? b).isSome ↔ ((parentSets.beside b).find? a).isSome
  irreflexive : ∀ id, (childSets.beside id).find? id = none

namespace Hierarchy

def ofPairs (nodes : NodeSet) (pairs : List (Node × Node))
    (within : ∀ p ∈ pairs, (nodes.find? p.1.id).isSome ∧ (nodes.find? p.2.id).isSome)
    (distinct : ∀ p ∈ pairs, p.1.id ≠ p.2.id) : Hierarchy where
  nodes := nodes
  childSets := .of pairs
  parentSets := .of (pairs.map Prod.swap)
  children_within := by
    intro a b h
    obtain ⟨p, hp, -, rfl⟩ := (Neighbours.isSome_find?_beside_of ..).1 h
    exact (within p hp).2
  parents_within := by
    intro a b h
    obtain ⟨q, hq, -, rfl⟩ := (Neighbours.isSome_find?_beside_of ..).1 h
    obtain ⟨p, hp, rfl⟩ := List.mem_map.1 hq
    exact (within p hp).1
  converse := by
    intro a b
    rw [Neighbours.isSome_find?_beside_of, Neighbours.isSome_find?_beside_of]
    constructor
    · rintro ⟨p, hp, first, second⟩
      exact ⟨p.swap, List.mem_map_of_mem hp, second, first⟩
    · rintro ⟨q, hq, first, second⟩
      obtain ⟨p, hp, rfl⟩ := List.mem_map.1 hq
      exact ⟨p, hp, second, first⟩
  irreflexive := by
    intro a
    rw [← Option.not_isSome_iff_eq_none, Neighbours.isSome_find?_beside_of]
    rintro ⟨p, hp, first, second⟩
    exact distinct p hp (first.trans second.symm)

def empty : Hierarchy := ofPairs ∅ [] (by simp) (by simp)

def inverted (h : Hierarchy) : Hierarchy where
  nodes := h.nodes
  childSets := h.parentSets
  parentSets := h.childSets
  children_within := h.parents_within
  parents_within := h.children_within
  converse a b := (h.converse b a).symm
  irreflexive id := by
    rw [← Option.not_isSome_iff_eq_none, ← h.converse, h.irreflexive]
    simp

def children (h : Hierarchy) (n : Node) : NodeSet := h.childSets.beside n.id

def parents (h : Hierarchy) (n : Node) : NodeSet := h.parentSets.beside n.id

def contains (h : Hierarchy) (n : Node) : Bool := h.nodes.contains n

def children? (h : Hierarchy) (n : Node) : Option NodeSet :=
  if h.contains n then some (h.children n) else none

def parents? (h : Hierarchy) (n : Node) : Option NodeSet :=
  if h.contains n then some (h.parents n) else none

def isLeaf (h : Hierarchy) (n : Node) : Bool := (h.children n).isEmpty

def roots (h : Hierarchy) : NodeSet := h.nodes.keep fun n => (h.parents n).isEmpty

def innerRoots (h : Hierarchy) : NodeSet := h.roots.keep fun n => !h.isLeaf n

def orphans (h : Hierarchy) : NodeSet := h.roots.keep h.isLeaf

def pairs (g : Graph) (rule : EdgeRule) : List (Node × Node) :=
  (g.edges.flatMap fun e =>
    let heading := rule.heading e.relation
    (if heading.isForward then [(e.head, e.tail)] else []) ++
    (if heading.isBackward then [(e.tail, e.head)] else [])).filter
  fun p => p.1.id ≠ p.2.id

theorem mem_pairs {g : Graph} {rule : EdgeRule} {p : Node × Node} :
    p ∈ pairs g rule ↔ p.1.id ≠ p.2.id ∧ ∃ e ∈ g.edges,
      (rule.followsForward e.relation ∧ p = (e.head, e.tail)) ∨
      (rule.followsBackward e.relation ∧ p = (e.tail, e.head)) := by
  simp only [pairs, EdgeRule.isForward_heading, EdgeRule.isBackward_heading, List.mem_filter,
    List.mem_flatMap, List.mem_append]
  grind

def ofGraph (g : Graph) (rule : EdgeRule) : Hierarchy :=
  ofPairs g.nodeSet (pairs g rule)
    (by
      intro p hp
      obtain ⟨-, e, he, ⟨-, rfl⟩ | ⟨-, rfl⟩⟩ := mem_pairs.1 hp
      · have := g.ends_mem e he
        simp [Graph.find?_nodeSet, Graph.node?_eq_some_iff.2 ⟨this.1, rfl⟩,
          Graph.node?_eq_some_iff.2 ⟨this.2, rfl⟩]
      · have := g.ends_mem e he
        simp [Graph.find?_nodeSet, Graph.node?_eq_some_iff.2 ⟨this.1, rfl⟩,
          Graph.node?_eq_some_iff.2 ⟨this.2, rfl⟩])
    (fun _ hp => (mem_pairs.1 hp).1)

def nodeCount (h : Hierarchy) : Nat := h.nodes.size

def builtEvent (h : Hierarchy) : Event :=
  ⟨.debug, s!"Hierarchy over {h.nodeCount} nodes: {h.roots.size} root(s)"⟩

inductive Reaches (h : Hierarchy) : Node → Node → Prop where
  | refl (a : Node) : Reaches h a a
  | step {a b c : Node} : c ∈ (h.children a).toList → Reaches h c b → Reaches h a b

end Hierarchy

end DependencyAtlas
