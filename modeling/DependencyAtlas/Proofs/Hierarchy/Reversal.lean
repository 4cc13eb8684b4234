import DependencyAtlas.Command.Program
import DependencyAtlas.Proofs.Hierarchy.Steps

set_option autoImplicit false

namespace DependencyAtlas

namespace Command

theorem Work.orFail_map {ε α β : Type} (failure : ε → Failure) (f : α → β) (result : Except ε α) :
    orFail failure (result.map f) = f <$> orFail failure result := by
  cases result <;> rfl

variable (relations sets : List String)

theorem HierarchyChoice.rule_reverse (reg : Registry) :
    (HierarchyChoice.mk relations sets true).rule reg =
      ((HierarchyChoice.mk relations sets false).rule reg).map EdgeRule.inverted := by
  unfold rule
  by_cases nothing : relations = [] ∧ sets = []
  · simp only [if_pos nothing]
    rfl
  · simp only [if_neg nothing]
    cases reg.resolve relations sets <;> rfl

theorem HierarchyChoice.rule_of_resolve {reg : Registry} {found : RelationSet}
    (something : relations ≠ [] ∨ sets ≠ []) (resolved : reg.resolve relations sets = .ok found) :
    (HierarchyChoice.mk relations sets false).rule reg = .ok (.along found) := by
  have chosen : ¬ (relations = [] ∧ sets = []) := not_and_or.2 something
  unfold rule
  simp only [if_neg chosen, resolved]
  rfl

theorem hierarchyRule_reverse (reg : Registry) :
    hierarchyRule ⟨relations, sets, true⟩ reg =
      EdgeRule.inverted <$> hierarchyRule ⟨relations, sets, false⟩ reg := by
  rw [hierarchyRule, HierarchyChoice.rule_reverse, Work.orFail_map]
  rfl

end Command

namespace Hierarchy

def leaves (h : Hierarchy) : NodeSet := h.nodes.keep h.isLeaf

theorem mem_orphans_toList {h : Hierarchy} {n : Node} :
    n ∈ h.orphans.toList ↔ n ∈ h.nodes.toList ∧ h.isLeaf n ∧ h.inverted.isLeaf n := by
  rw [orphans, NodeSet.mem_toList_keep, roots, NodeSet.mem_toList_keep, and_assoc,
    and_comm (a := ((h.parents n).isEmpty : Prop))]
  rfl

-- Having neither parents nor children reads the same either way.
theorem orphans_inverted (h : Hierarchy) : h.inverted.orphans = h.orphans := by
  refine NodeSet.ext_toList fun n => ?_
  rw [mem_orphans_toList, mem_orphans_toList, and_comm (a := (h.isLeaf n : Prop))]
  rfl

end Hierarchy

namespace Command

open Hierarchy Work

-- Lists the leaves of a hierarchy, and reports the one that has them as roots.
def runLeaves (files : Files) (graph : String) (hierarchy : HierarchyChoice) : Work Json := do
  let (reg, g) ← loadGraph files graph
  let rule ← hierarchyRule hierarchy reg
  let h := ofGraph g rule
  report [h.inverted.builtEvent]
  return .texts h.leaves.ids

theorem runRoots_reverse (files : Files) (graph : String) (relations sets : List String) :
    runRoots files graph ⟨relations, sets, true⟩ = runLeaves files graph ⟨relations, sets, false⟩ := by
  refine bind_congr fun loaded => ?_
  obtain ⟨reg, g⟩ := loaded
  dsimp only
  rw [hierarchyRule_reverse, bind_map_left]
  refine bind_congr fun rule => ?_
  rw [ofGraph_inverted]
  rfl

end Command

namespace Hierarchy

open Command in
theorem ofGraph_reversed (g : Graph) (rule : EdgeRule) :
    let h := ofGraph g rule
    let back := ofGraph g rule.inverted
    (back.childSets = h.parentSets ∧ back.parentSets = h.childSets) ∧
    (∀ n, back.children? n = h.parents? n ∧ back.parents? n = h.children? n) ∧
    (back.roots = h.leaves ∧ ∀ n, n ∈ h.leaves.toList ↔ n ∈ g.nodes ∧ h.isLeaf n) ∧
    back.orphans = h.orphans ∧
    (∀ reg relations sets, (HierarchyChoice.mk relations sets true).rule reg =
      ((HierarchyChoice.mk relations sets false).rule reg).map EdgeRule.inverted) ∧
    (∀ reg relations sets found, relations ≠ [] ∨ sets ≠ [] → reg.resolve relations sets = .ok found →
      (HierarchyChoice.mk relations sets false).rule reg = .ok (.along found)) ∧
    ∀ files graph relations sets,
      (Task.roots graph ⟨relations, sets, true⟩).perform files =
        runLeaves files graph ⟨relations, sets, false⟩ := by
  intro h back
  have inverse : back = h.inverted := ofGraph_inverted g rule
  refine ⟨?_, fun n => ?_, ⟨?_, fun n => ?_⟩, ?_, fun reg relations sets => ?_,
    fun reg relations sets found => ?_, ?_⟩
  · rw [inverse]
    exact ⟨rfl, rfl⟩
  · rw [inverse]
    exact ⟨rfl, rfl⟩
  · rw [inverse]
    rfl
  · rw [leaves, NodeSet.mem_toList_keep]
    exact and_congr_left fun _ => Graph.mem_nodeSet_toList
  · rw [inverse, orphans_inverted]
  · exact HierarchyChoice.rule_reverse relations sets reg
  · exact HierarchyChoice.rule_of_resolve relations sets
  · exact runRoots_reverse

end Hierarchy

end DependencyAtlas
