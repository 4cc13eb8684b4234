import DependencyAtlas.Proofs.NodeSet
import Mathlib.Data.List.Sort
import Mathlib.Data.Set.SymmDiff
import Mathlib.Order.ConditionallyCompleteLattice.Basic

set_option autoImplicit false

namespace DependencyAtlas.NodeSet

open scoped symmDiff

variable {a b : NodeSet} {n : Node} {id : String}

theorem mem_ids_meet : id ∈ (a.meet b).ids ↔ id ∈ a.ids ∧ id ∈ b.ids := by
  simp only [mem_ids, find?_meet]
  cases b.find? id <;> simp

theorem mem_ids_join : id ∈ (a.join b).ids ↔ id ∈ a.ids ∨ id ∈ b.ids := by
  simp [mem_ids, find?_join]

theorem mem_ids_minus : id ∈ (a.minus b).ids ↔ id ∈ a.ids ∧ id ∉ b.ids := by
  simp only [mem_ids, find?_minus]
  cases b.find? id <;> simp

theorem mem_ids_symmDiff :
    id ∈ (a.symmDiff b).ids ↔ id ∈ a.ids ∧ id ∉ b.ids ∨ id ∈ b.ids ∧ id ∉ a.ids := by
  simp only [mem_ids, find?_symmDiff]
  cases a.find? id <;> cases b.find? id <;> simp

def idSet (s : NodeSet) : Set String := {id | id ∈ s.ids}

-- Ids are listed in their order, so that it only matters which they are.
theorem ids_eq_iff : a.ids = b.ids ↔ a.idSet = b.idSet := by
  constructor
  · intro same
    rw [idSet, same, idSet]
  · intro same
    have increasing (s : NodeSet) : s.ids.Pairwise (· < ·) :=
      s.ids_increasing.imp compareOfLessAndEq_eq_lt.1
    exact (increasing a).eq_of_mem_iff (increasing b) fun id => Set.ext_iff.1 same id

@[simp] theorem idSet_meet (a b : NodeSet) : (a.meet b).idSet = a.idSet ∩ b.idSet :=
  Set.ext fun _ => mem_ids_meet

@[simp] theorem idSet_join (a b : NodeSet) : (a.join b).idSet = a.idSet ∪ b.idSet :=
  Set.ext fun _ => mem_ids_join

@[simp] theorem idSet_minus (a b : NodeSet) : (a.minus b).idSet = a.idSet \ b.idSet :=
  Set.ext fun _ => mem_ids_minus

@[simp] theorem idSet_symmDiff (a b : NodeSet) : (a.symmDiff b).idSet = a.idSet ∆ b.idSet :=
  Set.ext fun _ => mem_ids_symmDiff

theorem mem_toList_join : n ∈ (a.join b).toList ↔ n ∈ a.toList ∨ n ∈ b.toList ∧ n.id ∉ a.ids := by
  simp only [mem_toList, mem_ids, find?_join]
  cases a.find? n.id <;> simp

theorem symmDiff_eq_minus (a b : NodeSet) : a.symmDiff b = (a.join b).minus (a.meet b) := by
  refine ext fun id => ?_
  rw [find?_symmDiff, find?_minus, find?_join, find?_meet]
  cases a.find? id <;> cases b.find? id <;> rfl

theorem symmDiff_eq_join (a b : NodeSet) : a.symmDiff b = (a.minus b).join (b.minus a) := by
  refine ext fun id => ?_
  rw [find?_symmDiff, find?_join, find?_minus, find?_minus]
  cases a.find? id <;> cases b.find? id <;> rfl

theorem symmDiff_self_eq (a : NodeSet) : a.symmDiff a = ∅ := by
  refine ext fun id => ?_
  rw [find?_symmDiff, find?_empty]
  cases a.find? id <;> rfl

theorem boolean_by_ids (a b c : NodeSet) :
    (∀ id, (id ∈ (a.meet b).ids ↔ id ∈ a.ids ∧ id ∈ b.ids) ∧
      (id ∈ (a.join b).ids ↔ id ∈ a.ids ∨ id ∈ b.ids) ∧
      (id ∈ (a.minus b).ids ↔ id ∈ a.ids ∧ id ∉ b.ids) ∧
      (id ∈ (a.symmDiff b).ids ↔ id ∈ a.ids ∧ id ∉ b.ids ∨ id ∈ b.ids ∧ id ∉ a.ids)) ∧
    ((a.meet b).ids = (b.meet a).ids ∧ (a.join b).ids = (b.join a).ids ∧
      (a.symmDiff b).ids = (b.symmDiff a).ids) ∧
    (((a.meet b).meet c).ids = (a.meet (b.meet c)).ids ∧
      ((a.join b).join c).ids = (a.join (b.join c)).ids ∧
      ((a.symmDiff b).symmDiff c).ids = (a.symmDiff (b.symmDiff c)).ids) ∧
    ((a.meet (b.join c)).ids = ((a.meet b).join (a.meet c)).ids ∧
      (a.join (b.meet c)).ids = ((a.join b).meet (a.join c)).ids ∧
      (a.meet (b.symmDiff c)).ids = ((a.meet b).symmDiff (a.meet c)).ids) ∧
    ((a.minus (b.join c)).ids = ((a.minus b).meet (a.minus c)).ids ∧
      (a.minus (b.meet c)).ids = ((a.minus b).join (a.minus c)).ids) ∧
    a.symmDiff a = ∅ ∧
    (∀ n, n ∈ (a.join b).toList ↔ n ∈ a.toList ∨ n ∈ b.toList ∧ n.id ∉ a.ids) ∧
    ((a.minus b).ids.Disjoint (a.meet b).ids ∧ (a.meet b).ids.Disjoint (b.minus a).ids ∧
      (a.minus b).ids.Disjoint (b.minus a).ids ∧
      ∀ id, id ∈ (a.join b).ids ↔
        id ∈ (a.minus b).ids ∨ id ∈ (a.meet b).ids ∨ id ∈ (b.minus a).ids) ∧
    a.symmDiff b = (a.join b).minus (a.meet b) ∧
    a.symmDiff b = (a.minus b).join (b.minus a) := by
  refine ⟨fun id => ⟨mem_ids_meet, mem_ids_join, mem_ids_minus, mem_ids_symmDiff⟩, ?_, ?_, ?_, ?_,
    symmDiff_self_eq a, fun n => mem_toList_join, ⟨?_, ?_, ?_, fun id => ?_⟩, symmDiff_eq_minus a b,
    symmDiff_eq_join a b⟩
  · simp only [ids_eq_iff, idSet_meet, idSet_join, idSet_symmDiff]
    exact ⟨Set.inter_comm _ _, Set.union_comm _ _, symmDiff_comm _ _⟩
  · simp only [ids_eq_iff, idSet_meet, idSet_join, idSet_symmDiff]
    exact ⟨Set.inter_assoc _ _ _, Set.union_assoc _ _ _, symmDiff_assoc _ _ _⟩
  · simp only [ids_eq_iff, idSet_meet, idSet_join, idSet_symmDiff]
    exact ⟨Set.inter_union_distrib_left _ _ _, Set.union_inter_distrib_left _ _ _,
      inf_symmDiff_distrib_left _ _ _⟩
  · simp only [ids_eq_iff, idSet_meet, idSet_join, idSet_minus]
    exact ⟨sdiff_sup, sdiff_inf⟩
  · intro id alone shared
    exact (mem_ids_minus.1 alone).2 (mem_ids_meet.1 shared).2
  · intro id shared alone
    exact (mem_ids_minus.1 alone).2 (mem_ids_meet.1 shared).1
  · intro id first second
    exact (mem_ids_minus.1 first).2 (mem_ids_minus.1 second).1
  · rw [mem_ids_join, mem_ids_minus, mem_ids_meet, mem_ids_minus]
    tauto

end DependencyAtlas.NodeSet
