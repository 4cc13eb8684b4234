import DependencyAtlas.Hierarchy
import DependencyAtlas.Proofs.NodeSet

set_option autoImplicit false

namespace DependencyAtlas.Hierarchy

variable {h : Hierarchy}

theorem mem_children_comm {p c : Node} : c ∈ h.children p ↔ p ∈ h.parents c := by
  rw [NodeSet.mem_iff, NodeSet.mem_iff]
  exact h.converse p.id c.id

theorem mem_roots {n : Node} : n ∈ h.roots ↔ n ∈ h.nodes ∧ (h.parents n).isEmpty :=
  NodeSet.mem_keep fun m same => by rw [parents, parents, same]

theorem isLeaf_congr {m n : Node} (same : m.id = n.id) : h.isLeaf m = h.isLeaf n := by
  rw [isLeaf, isLeaf, children, children, same]

theorem mem_orphans {n : Node} : n ∈ h.orphans ↔ n ∈ h.roots ∧ h.isLeaf n :=
  NodeSet.mem_keep fun _ same => isLeaf_congr same

theorem mem_innerRoots {n : Node} : n ∈ h.innerRoots ↔ n ∈ h.roots ∧ ¬ h.isLeaf n := by
  rw [innerRoots, NodeSet.mem_keep fun m same => by rw [isLeaf_congr same], Bool.not_eq_true',
    Bool.not_eq_true]

theorem not_mem_orphans_of_inner {n : Node} (inner : n ∈ h.innerRoots) : n ∉ h.orphans :=
  fun orphan => (mem_innerRoots.1 inner).2 (mem_orphans.1 orphan).2

theorem mem_roots_toList {n : Node} :
    n ∈ h.roots.toList ↔ n ∈ h.innerRoots.toList ∨ n ∈ h.orphans.toList := by
  rw [innerRoots, orphans, NodeSet.mem_toList_keep, NodeSet.mem_toList_keep]
  cases h.isLeaf n <;> simp

theorem not_mem_roots_of_child {n c : Node} (child : c ∈ (h.children n).toList) : c ∉ h.roots := by
  intro root
  have parent : n ∈ h.parents c := mem_children_comm.1 (NodeSet.mem_of_mem_toList child)
  rw [Std.ExtTreeSet.isEmpty_iff.1 (mem_roots.1 root).2] at parent
  simp at parent

theorem not_mem_children_of_leaf {n : Node} (leaf : h.isLeaf n) (c : Node) :
    c ∉ (h.children n).toList := by
  rw [Std.ExtTreeSet.isEmpty_iff.1 leaf, NodeSet.mem_toList, NodeSet.find?_empty]
  simp

namespace Reaches

theorem trans {a b c : Node} (first : h.Reaches a b) (second : h.Reaches b c) : h.Reaches a c := by
  induction first with
  | refl => exact second
  | step child _ ih => exact .step child (ih second)

theorem eq_or_child {a b : Node} (reaches : h.Reaches a b) :
    a = b ∨ ∃ n, b ∈ (h.children n).toList := by
  induction reaches with
  | refl => exact .inl rfl
  | @step a _ c child _ ih =>
    rcases ih with here | below
    · exact .inr ⟨a, here ▸ child⟩
    · exact .inr below

theorem eq_of_leaf {a b : Node} (reaches : h.Reaches a b) (leaf : h.isLeaf a) : a = b := by
  cases reaches with
  | refl => rfl
  | step child _ => exact absurd child (not_mem_children_of_leaf leaf _)

theorem not_mem_orphans {a b : Node} (reaches : h.Reaches a b) (inner : a ∈ h.innerRoots) :
    b ∉ h.orphans := by
  intro orphan
  rcases reaches.eq_or_child with here | ⟨n, child⟩
  · rw [← here] at orphan
    exact (mem_innerRoots.1 inner).2 (mem_orphans.1 orphan).2
  · exact not_mem_roots_of_child child (mem_orphans.1 orphan).1

end Reaches

def ReachedFrom (h : Hierarchy) (roots : NodeSet) (id : String) : Prop :=
  ∃ r ∈ roots.toList, ∃ n, h.Reaches r n ∧ n.id = id

theorem reachedFrom_roots (id : String) :
    h.ReachedFrom h.roots id ↔
      h.ReachedFrom h.innerRoots id ∨ id ∈ h.orphans.ids := by
  constructor
  · intro reached
    obtain ⟨r, hr, n, reaches, same⟩ := reached
    rcases mem_roots_toList.1 hr with inner | orphan
    · exact .inl ⟨r, inner, n, reaches, same⟩
    · have leaf := (mem_orphans.1 (NodeSet.mem_of_mem_toList orphan)).2
      rw [← reaches.eq_of_leaf leaf] at same
      exact .inr (List.mem_map.2 ⟨r, orphan, same⟩)
  · intro reached
    rcases reached with ⟨r, hr, n, reaches, same⟩ | orphan
    · exact ⟨r, mem_roots_toList.2 (.inl hr), n, reaches, same⟩
    · obtain ⟨r, hr, same⟩ := List.mem_map.1 orphan
      exact ⟨r, mem_roots_toList.2 (.inr hr), r, .refl r, same⟩

def Closed (h : Hierarchy) (s : NodeSet) : Prop := ∀ n ∈ s, ∀ c ∈ (h.children n).toList, c ∈ s

theorem Closed.reaches {s : NodeSet} (closed : h.Closed s) {a b : Node} (reaches : h.Reaches a b)
    (ha : a ∈ s) : b ∈ s := by
  induction reaches with
  | refl a => exact ha
  | step child _ ih => exact ih (closed _ ha _ child)

theorem closed_empty : h.Closed ∅ := by
  intro n hn
  simp at hn

end DependencyAtlas.Hierarchy
