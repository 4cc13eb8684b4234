import DependencyAtlas.Proofs.Layout.Passes

set_option autoImplicit false

namespace DependencyAtlas

theorem NodeSet.size_le_one_iff {s : NodeSet} :
    s.size ≤ 1 ↔ ∀ a ∈ s.ids, ∀ b ∈ s.ids, a = b := by
  have card : s.ids.toFinset.card = s.size := by
    rw [List.toFinset_card_of_nodup s.ids_nodup, ids, List.length_map, Std.ExtTreeSet.length_toList]
  rw [← card, Finset.card_le_one]
  simp only [List.mem_toFinset]

namespace Layout.Radial

variable {h : Hierarchy} {s t : Slot}

theorem offsets_orphanSlots (h : Hierarchy) :
    (orphanSlots h).map (·.offset) = List.range h.orphans.size := by
  calc (orphanSlots h).map (·.offset)
      = h.orphans.toList.zipIdx.map Prod.snd := by
        rw [orphanSlots, List.map_map]
        rfl
    _ = List.range h.orphans.size := by
        rw [List.zipIdx_map_snd, Std.ExtTreeSet.length_toList, List.range_eq_range']

theorem orphan_slot_unique (hs : s ∈ orphanSlots h) (ht : t ∈ orphanSlots h)
    (offset : s.offset = t.offset) : s = t := by
  have distinct : ((orphanSlots h).map (·.offset)).Nodup := by
    rw [offsets_orphanSlots]
    exact List.nodup_range
  exact List.inj_on_of_nodup_map distinct hs ht offset

theorem treeSlots_eq_nil_iff : treeSlots h = [] ↔ ∀ r, r ∉ h.innerRoots := by
  have covers := covers_treeSlots h
  constructor
  · intro none r inner
    obtain ⟨root, listed, -⟩ := NodeSet.exists_mem_toList inner
    have placed := (covers.mem_iff root.id).2 ⟨root, listed, root, .refl root, rfl⟩
    rw [none] at placed
    cases placed
  · intro none
    refine List.eq_nil_iff_forall_not_mem.2 fun s hs => ?_
    obtain ⟨r, hr, -⟩ := (covers.mem_iff s.node.id).1 (List.mem_map_of_mem hs)
    exact none r (NodeSet.mem_of_mem_toList hr)

theorem orphanLevel_pos_iff : 0 < orphanLevel h ↔ ∃ r, r ∈ h.innerRoots := by
  constructor
  · intro out
    by_contra none
    obtain ⟨forest, after, grows⟩ := Traversal.Grows.exists_forest h h.innerRoots.toList ∅
    have trees := treeSlots_eq_nil_iff.2 (not_exists.1 none)
    rw [orphanLevel_eq grows, ← treeSlots_eq grows, trees] at out
    exact Nat.lt_irrefl 0 out
  · intro inner
    have some : treeSlots h ≠ [] := fun none =>
      inner.elim fun r hr => treeSlots_eq_nil_iff.1 none r hr
    obtain ⟨s, hs⟩ := List.exists_mem_of_ne_nil _ some
    exact Nat.zero_lt_of_lt (level_lt_orphanLevel hs)

-- The angle makes no difference in the center.
theorem point_center (spacing : ℝ) (around : Nat) (center : s.level = 0) :
    point spacing around s = ⟨0, 0⟩ := by
  simp [point, Point.polar, Coordinate.ofNat, center]

theorem eq_of_orphan_point_eq {spacing : ℝ} (positive : 0 < spacing) (out : 0 < orphanLevel h)
    (hs : s ∈ orphanSlots h) (ht : t ∈ orphanSlots h)
    (same : point spacing (circumference h) s = point spacing (circumference h) t) : s = t := by
  obtain ⟨-, level, sWithin⟩ := mem_orphanSlots hs
  obtain ⟨-, -, tWithin⟩ := mem_orphanSlots ht
  exact orphan_slot_unique hs ht (eq_of_point_eq positive (level ▸ out) sWithin tWithin same).1

theorem exists_orphan_slot {id : String} (orphan : id ∈ h.orphans.ids) :
    ∃ s ∈ orphanSlots h, s.node.id = id := by
  rw [← ids_orphanSlots] at orphan
  exact List.mem_map.1 orphan

theorem position_of_orphan (spacing : ℝ) (hs : s ∈ orphanSlots h) :
    (positions spacing h)[s.node.id]? = some (point spacing (circumference h) s) :=
  (draw_eq_some_iff (covers_slots h).nodup _ _).2 ⟨s, List.mem_append_right _ hs, rfl, rfl⟩

theorem position_in_center {id : String} (spacing : ℝ) (center : orphanLevel h = 0)
    (orphan : id ∈ h.orphans.ids) : (positions spacing h)[id]? = some ⟨0, 0⟩ := by
  obtain ⟨s, hs, rfl⟩ := exists_orphan_slot orphan
  rw [position_of_orphan spacing hs, point_center spacing _ ((mem_orphanSlots hs).2.1.trans center)]

-- Without trees the ring of the orphans is the center, and they are all at one point.
theorem orphans_apart_iff (h : Hierarchy) :
    (orphanSlots h).map (·.node.id) = h.orphans.ids ∧
      (orphanSlots h).map (·.offset) = List.range h.orphans.size ∧
      h.orphans.size ≤ circumference h ∧
      (∀ s ∈ orphanSlots h, s.level = orphanLevel h) ∧
      (0 < orphanLevel h ↔ ∃ r, r ∈ h.innerRoots) ∧
      ∀ spacing : ℝ, 0 < spacing →
        ((∀ a ∈ h.orphans.ids, ∀ b ∈ h.orphans.ids,
            (positions spacing h)[a]? = (positions spacing h)[b]? → a = b) ↔
          (∃ r, r ∈ h.innerRoots) ∨ h.orphans.size ≤ 1) := by
  refine ⟨ids_orphanSlots h, offsets_orphanSlots h, ?_, fun s hs => (mem_orphanSlots hs).2.1,
    orphanLevel_pos_iff, ?_⟩
  · rw [circumference]
    omega
  intro spacing positive
  rw [← orphanLevel_pos_iff, NodeSet.size_le_one_iff]
  constructor
  · intro apart
    rcases Nat.eq_zero_or_pos (orphanLevel h) with center | out
    · refine .inr fun a ha b hb => apart a ha b hb ?_
      rw [position_in_center spacing center ha, position_in_center spacing center hb]
    · exact .inl out
  · intro few a ha b hb same
    rcases few with out | single
    · obtain ⟨s, hs, rfl⟩ := exists_orphan_slot ha
      obtain ⟨t, ht, rfl⟩ := exists_orphan_slot hb
      rw [position_of_orphan spacing hs, position_of_orphan spacing ht] at same
      rw [eq_of_orphan_point_eq positive out hs ht (Option.some.inj same)]
    · exact single a ha b hb

theorem not_linked (p : Node × Node) (hp : p ∈ []) : p.1.id ≠ p.2.id := by
  cases hp

def couple : Hierarchy :=
  .ofPairs (.ofNodes [.named "a", .named "b"]) [] (by simp) not_linked

theorem couple_not_apart :
    couple.orphans.ids = ["a", "b"] ∧ orphanLevel couple = 0 ∧
      ∀ spacing : ℝ, 0 < spacing →
        ¬ ∀ a ∈ couple.orphans.ids, ∀ b ∈ couple.orphans.ids,
          (positions spacing couple)[a]? = (positions spacing couple)[b]? → a = b := by
  have ids : couple.orphans.ids = ["a", "b"] := by cbv
  have center : orphanLevel couple = 0 := by cbv
  refine ⟨ids, center, fun spacing _ apart => ?_⟩
  have first : "a" ∈ couple.orphans.ids := by simp [ids]
  have second : "b" ∈ couple.orphans.ids := by simp [ids]
  have same := (position_in_center spacing center first).trans
    (position_in_center spacing center second).symm
  exact absurd (apart "a" first "b" second same) (by decide)

end Layout.Radial

end DependencyAtlas
