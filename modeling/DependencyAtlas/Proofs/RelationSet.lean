import DependencyAtlas.Relation
import Mathlib.Data.Fintype.EquivFin
import Mathlib.Order.Lattice

set_option autoImplicit false

namespace DependencyAtlas

instance : Infinite Relation :=
  .of_injective (fun name => Relation.mk name "") fun _ _ same => congrArg Relation.forward same

namespace RelationSet

variable {a b c : RelationSet}

theorem not_contains_iff : (∀ r, a.contains r = false) ↔ a = empty := by
  cases a with
  | empty => simp [contains]
  | all => simp [contains]
  | enumerated members nonempty =>
    refine iff_of_false (fun none => nonempty ?_) (by simp)
    exact Std.ExtTreeSet.eq_empty_iff_forall_contains.2 none

theorem forall_contains_iff : (∀ r, a.contains r = true) ↔ a = all := by
  cases a with
  | empty => simp [contains]
  | all => simp [contains]
  | enumerated members nonempty =>
    refine iff_of_false (fun every => ?_) (by simp)
    obtain ⟨fresh, beyond⟩ := Infinite.exists_notMem_finset members.toList.toFinset
    rw [List.mem_toFinset, Std.ExtTreeSet.mem_toList] at beyond
    exact beyond (Std.ExtTreeSet.contains_iff_mem.1 (every fresh))

theorem ext_contains (same : ∀ r, a.contains r = b.contains r) : a = b := by
  cases a with
  | empty => exact (not_contains_iff.1 fun r => (same r).symm).symm
  | all => exact (forall_contains_iff.1 fun r => (same r).symm).symm
  | enumerated as nonempty =>
    cases b with
    | empty => exact not_contains_iff.1 same
    | all => exact forall_contains_iff.1 same
    | enumerated bs nonempty' =>
      have members : as = bs := Std.ExtTreeSet.ext_contains same
      subst members
      rfl

theorem isEmpty_iff : a.isEmpty ↔ a = empty := by
  cases a <;> simp [isEmpty]

instance : DistribLattice RelationSet where
  le a b := ∀ r, a.contains r → b.contains r
  le_refl _ _ held := held
  le_trans _ _ _ first second r held := second r (first r held)
  le_antisymm _ _ first second := ext_contains fun r => Bool.eq_iff_iff.2 ⟨first r, second r⟩
  sup := union
  le_sup_left _ _ r held := by simp [held]
  le_sup_right _ _ r held := by simp [held]
  sup_le _ _ _ first second r held := by
    rw [contains_union, Bool.or_eq_true] at held
    exact held.elim (first r) (second r)
  inf := inter
  inf_le_left _ _ r held := by
    rw [contains_inter, Bool.and_eq_true] at held
    exact held.1
  inf_le_right _ _ r held := by
    rw [contains_inter, Bool.and_eq_true] at held
    exact held.2
  le_inf _ _ _ first second r held := by
    rw [contains_inter, Bool.and_eq_true]
    exact ⟨first r held, second r held⟩
  le_sup_inf a b c r held := by
    have held : ((a.union b).inter (a.union c)).contains r := held
    show (a.union (b.inter c)).contains r
    simp only [contains_union, contains_inter, Bool.and_eq_true, Bool.or_eq_true] at held ⊢
    exact or_and_left.2 held

end RelationSet

namespace EdgeRule

variable {rule other : EdgeRule} {domain : List Relation} {r : Relation}

theorem ext_follows (forward : ∀ r, rule.followsForward r = other.followsForward r)
    (backward : ∀ r, rule.followsBackward r = other.followsBackward r) : rule = other := by
  have forward : rule.forward = other.forward := RelationSet.ext_contains forward
  have backward : rule.backward = other.backward := RelationSet.ext_contains backward
  cases rule
  cases other
  simp_all

theorem followsForward_within :
    (rule.within domain).followsForward r ↔ r ∈ domain ∧ rule.followsForward r := by
  simp [within, forwardWithin, followsForward]

theorem followsBackward_within :
    (rule.within domain).followsBackward r ↔ r ∈ domain ∧ rule.followsBackward r := by
  simp [within, backwardWithin, followsBackward]

end EdgeRule

-- No set has two forms, so that the laws of the lattice hold as equalities.
theorem RelationSet.determined_by_members (a b c : RelationSet) (rule : EdgeRule)
    (domain : List Relation) :
    ((a = b ↔ ∀ r, a.contains r ↔ b.contains r) ∧ (a.isEmpty ↔ ∀ r, ¬ a.contains r)) ∧
    (∀ r, ((a.union b).contains r ↔ a.contains r ∨ b.contains r) ∧
      ((a.inter b).contains r ↔ a.contains r ∧ b.contains r)) ∧
    (a.union b = b.union a ∧ a.inter b = b.inter a) ∧
    ((a.union b).union c = a.union (b.union c) ∧ (a.inter b).inter c = a.inter (b.inter c)) ∧
    (a.union a = a ∧ a.inter a = a) ∧
    (a.union (a.inter b) = a ∧ a.inter (a.union b) = a) ∧
    (a.union (b.inter c) = (a.union b).inter (a.union c) ∧
      a.inter (b.union c) = (a.inter b).union (a.inter c)) ∧
    (∀ r, ((rule.within domain).followsForward r ↔ r ∈ domain ∧ rule.followsForward r) ∧
      ((rule.within domain).followsBackward r ↔ r ∈ domain ∧ rule.followsBackward r)) ∧
    (rule.within domain).within domain = rule.within domain ∧
    (rule.within domain).inverted = rule.inverted.within domain := by
  refine ⟨⟨⟨?_, ?_⟩, ?_⟩, fun r => ⟨?_, ?_⟩, ⟨sup_comm a b, inf_comm a b⟩,
    ⟨sup_assoc a b c, inf_assoc a b c⟩, ⟨sup_idem a, inf_idem a⟩,
    ⟨sup_inf_self, inf_sup_self⟩, ⟨sup_inf_left a b c, inf_sup_left a b c⟩,
    fun r => ⟨EdgeRule.followsForward_within, EdgeRule.followsBackward_within⟩, ?_, rfl⟩
  · rintro rfl r
    exact Iff.rfl
  · exact fun same => ext_contains fun r => Bool.eq_iff_iff.2 (same r)
  · rw [isEmpty_iff, ← not_contains_iff]
    simp only [Bool.not_eq_true]
  · rw [contains_union, Bool.or_eq_true]
  · rw [contains_inter, Bool.and_eq_true]
  · refine EdgeRule.ext_follows (fun r => Bool.eq_iff_iff.2 ?_) fun r => Bool.eq_iff_iff.2 ?_
    · simp [EdgeRule.followsForward_within]
    · simp [EdgeRule.followsBackward_within]

end DependencyAtlas
