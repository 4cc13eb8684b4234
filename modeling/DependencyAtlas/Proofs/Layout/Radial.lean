import DependencyAtlas.Proofs.Layout.Placement

set_option autoImplicit false

namespace DependencyAtlas.Layout.Radial

open Traversal (Forest Grows)

namespace Survey

def beyond (s : Survey) : Nat :=
  match s.deepest with
  | none => 0
  | some level => level + 1

theorem counter : hooks.Counter Survey.next where
  offset _ _ := rfl
  advance _ _ := rfl
  assign _ _ _ _ := rfl

theorem shows_beyond : hooks.Shows beyond fun ring slot => max ring (slot.level + 1) where
  advance _ _ := rfl
  assign s n level offset := by
    cases deepest : s.deepest with
    | none => simp [beyond, hooks, deeper, deepest]
    | some d =>
      simp only [beyond, hooks, deeper, deepest]
      omega

end Survey

namespace Placing

theorem counter : hooks.Counter Placing.next where
  offset _ _ := rfl
  advance _ _ := rfl
  assign _ _ _ _ := rfl

theorem shows_slots : hooks.Shows Placing.slots Array.push where
  advance _ _ := rfl
  assign _ _ _ _ := rfl

end Placing

section Passes

variable {h : Hierarchy} {forest : Forest} {after : NodeSet}

theorem next_survey (grows : Grows h h.innerRoots.toList ∅ forest after) :
    (survey h).next = forest.leaves := by
  rw [survey, Traversal.placeRoots_of_grows Survey.hooks {} grows, Survey.counter.next_place]
  exact Nat.zero_add _

theorem orphanLevel_eq (grows : Grows h h.innerRoots.toList ∅ forest after) :
    orphanLevel h = (forest.slots (rootLevel h.innerRoots.size) 0).foldl
      (fun ring slot => max ring (slot.level + 1)) 0 := by
  change (survey h).beyond = _
  rw [survey, Traversal.placeRoots_of_grows Survey.hooks {} grows,
    Survey.counter.view_place Survey.shows_beyond]
  rfl

theorem treeSlots_eq (grows : Grows h h.innerRoots.toList ∅ forest after) :
    treeSlots h = forest.slots (rootLevel h.innerRoots.size) 0 := by
  rw [treeSlots, placing, Traversal.placeRoots_of_grows Placing.hooks {} grows,
    Placing.counter.view_place Placing.shows_slots, List.foldl_push_eq_append']
  simp [Placing.hooks]

end Passes

theorem one_le_circumference (h : Hierarchy) : 1 ≤ circumference h := Nat.le_max_right ..

theorem covers_treeSlots (h : Hierarchy) : Covers h h.innerRoots (treeSlots h) := by
  obtain ⟨forest, after, grows⟩ := Grows.exists_forest h h.innerRoots.toList ∅
  rw [treeSlots_eq grows]
  exact .of_grows grows _ 0

theorem treeSlots_increase (h : Hierarchy) :
    (treeSlots h).Pairwise fun s t => s.level = t.level → s.offset < t.offset := by
  obtain ⟨forest, after, grows⟩ := Grows.exists_forest h h.innerRoots.toList ∅
  rw [treeSlots_eq grows]
  exact forest.slots_increase _ 0

variable {h : Hierarchy} {s t : Slot}

theorem offset_lt_of_tree (hs : s ∈ treeSlots h) : s.offset < circumference h := by
  obtain ⟨forest, after, grows⟩ := Grows.exists_forest h h.innerRoots.toList ∅
  rw [treeSlots_eq grows] at hs
  have used := (forest.offset_mem _ 0 s hs).2
  have counted := next_survey grows
  rw [circumference]
  omega

-- The ring is beyond the one it starts with, and beyond the level of every slot.
theorem level_lt_foldl (slots : List Slot) (ring : Nat) :
    ring ≤ slots.foldl (fun ring slot => max ring (slot.level + 1)) ring ∧
      ∀ s ∈ slots, s.level < slots.foldl (fun ring slot => max ring (slot.level + 1)) ring := by
  induction slots generalizing ring with
  | nil => simp
  | cons slot rest ih =>
    obtain ⟨start, each⟩ := ih (max ring (slot.level + 1))
    rw [List.foldl_cons, List.forall_mem_cons]
    exact ⟨by omega, by omega, each⟩

theorem level_lt_orphanLevel (hs : s ∈ treeSlots h) : s.level < orphanLevel h := by
  obtain ⟨forest, after, grows⟩ := Grows.exists_forest h h.innerRoots.toList ∅
  rw [treeSlots_eq grows] at hs
  rw [orphanLevel_eq grows]
  exact (level_lt_foldl _ 0).2 s hs

-- A single root stands in the center, and several roots start further out.
theorem center_unique (hs : s ∈ treeSlots h) (ht : t ∈ treeSlots h) (sCenter : s.level = 0)
    (tCenter : t.level = 0) : s = t := by
  obtain ⟨forest, after, grows⟩ := Grows.exists_forest h h.innerRoots.toList ∅
  rw [treeSlots_eq grows] at hs ht
  by_cases single : h.innerRoots.size ≤ 1
  · have inside : rootLevel h.innerRoots.size = 0 := if_pos single
    rw [inside] at hs ht
    rw [← Std.ExtTreeSet.length_toList] at single
    rcases grows.eq_nil_or_tree single with none | ⟨root, below, tree⟩
    · rw [none] at hs
      cases hs
    · rw [tree] at hs ht
      rw [Forest.eq_root_of_level hs sCenter, Forest.eq_root_of_level ht tCenter]
  · have out : 1 ≤ rootLevel h.innerRoots.size := by
      unfold rootLevel
      split_ifs <;> omega
    have start := forest.level_le _ 0 s hs
    omega

theorem ids_orphanSlots (h : Hierarchy) : (orphanSlots h).map (·.node.id) = h.orphans.ids := by
  calc (orphanSlots h).map (·.node.id)
      = (h.orphans.toList.zipIdx.map Prod.fst).map (·.id) := by
        rw [orphanSlots, List.map_map, List.map_map]
        rfl
    _ = h.orphans.ids := by rw [List.zipIdx_map_fst, NodeSet.ids]

theorem mem_orphanSlots (hs : s ∈ orphanSlots h) :
    s.node ∈ h.orphans ∧ s.level = orphanLevel h ∧ s.offset < circumference h := by
  obtain ⟨⟨n, offset⟩, numbered, rfl⟩ := List.mem_map.1 hs
  have there := List.mk_mem_zipIdx_iff_getElem?.1 numbered
  have within := (List.getElem?_eq_some_iff.1 there).1
  rw [Std.ExtTreeSet.length_toList] at within
  refine ⟨NodeSet.mem_of_mem_toList (List.mem_of_getElem? there), rfl, ?_⟩
  dsimp only [circumference]
  omega

theorem not_mem_orphans_of_reached {n : Node} (reached : h.ReachedFrom h.innerRoots n.id) :
    n ∉ h.orphans := by
  obtain ⟨r, hr, m, reaches, same⟩ := reached
  have other := reaches.not_mem_orphans (NodeSet.mem_of_mem_toList hr)
  rw [NodeSet.mem_iff, same, ← NodeSet.mem_iff] at other
  exact other

theorem mem_treeSlots_iff : s ∈ treeSlots h ↔ s ∈ slots h ∧ s.node ∉ h.orphans := by
  rw [slots, List.mem_append]
  constructor
  · intro hs
    refine ⟨.inl hs, not_mem_orphans_of_reached ?_⟩
    exact ((covers_treeSlots h).mem_iff s.node.id).1 (List.mem_map_of_mem hs)
  · intro member
    obtain ⟨hs, tree⟩ := member
    rcases hs with inTree | orphan
    · exact inTree
    · exact absurd (mem_orphanSlots orphan).1 tree

theorem covers_slots (h : Hierarchy) : Covers h h.roots (slots h) := by
  have trees := covers_treeSlots h
  constructor
  · rw [slots, List.map_append, List.nodup_append, ids_orphanSlots]
    refine ⟨trees.nodup, h.orphans.ids_nodup, ?_⟩
    intro id inTree other orphan same
    obtain ⟨s, hs, rfl⟩ := List.mem_map.1 inTree
    rw [← same, NodeSet.mem_ids, ← NodeSet.mem_iff] at orphan
    exact (mem_treeSlots_iff.1 hs).2 orphan
  · intro id
    rw [slots, List.map_append, List.mem_append, ids_orphanSlots, trees.mem_iff,
      Hierarchy.reachedFrom_roots]

theorem angle_within {around offset : Nat} (within : offset < around) :
    0 ≤ (offset : ℝ) * (2 * Real.pi / around) ∧
      (offset : ℝ) * (2 * Real.pi / around) < 2 * Real.pi := by
  have turn : 0 < 2 * Real.pi := Real.two_pi_pos
  have less : (offset : ℝ) < around := by exact_mod_cast within
  have positive : (0 : ℝ) < around := by exact_mod_cast Nat.zero_lt_of_lt within
  have slice : 0 < 2 * Real.pi / around := div_pos turn positive
  constructor
  · positivity
  · calc (offset : ℝ) * (2 * Real.pi / around)
        < around * (2 * Real.pi / around) := mul_lt_mul_of_pos_right less slice
      _ = 2 * Real.pi := mul_div_cancel₀ _ positive.ne'

-- Outside the center, a point tells the slot.
theorem eq_of_point_eq {spacing : ℝ} {around : Nat} (positive : 0 < spacing) (out : 0 < s.level)
    (hs : s.offset < around) (ht : t.offset < around)
    (same : point spacing around s = point spacing around t) :
    s.offset = t.offset ∧ s.level = t.level := by
  obtain ⟨sAngle, sTurn⟩ := angle_within hs
  obtain ⟨tAngle, tTurn⟩ := angle_within ht
  have away : (0 : ℝ) < s.level := by exact_mod_cast out
  have radius : (0 : ℝ) < s.level * spacing := mul_pos away positive
  have around_pos : (0 : ℝ) < around := by exact_mod_cast Nat.zero_lt_of_lt hs
  have slice : 2 * Real.pi / around ≠ 0 := (div_pos Real.two_pi_pos around_pos).ne'
  obtain ⟨angles, radii⟩ := Point.polar_unique sAngle sTurn tAngle tTurn radius
    (mul_nonneg t.level.cast_nonneg positive.le) same
  exact ⟨Nat.cast_injective (mul_right_cancel₀ slice angles),
    Nat.cast_injective (mul_right_cancel₀ positive.ne' radii)⟩

theorem offset_lt (hs : s ∈ slots h) : s.offset < circumference h := by
  rcases List.mem_append.1 hs with inTree | orphan
  · exact offset_lt_of_tree inTree
  · exact (mem_orphanSlots orphan).2.2

theorem level_lt_of_orphan (hs : s ∈ treeSlots h) (ht : t ∈ slots h) (orphan : t.node ∈ h.orphans) :
    s.level < t.level := by
  rcases List.mem_append.1 ht with inTree | outer
  · exact absurd orphan (mem_treeSlots_iff.1 inTree).2
  · rw [(mem_orphanSlots outer).2.1]
    exact level_lt_orphanLevel hs

theorem eq_of_tree_point_eq {spacing : ℝ} (positive : 0 < spacing) (hs : s ∈ treeSlots h)
    (ht : t ∈ slots h)
    (same : point spacing (circumference h) s = point spacing (circumference h) t) : s = t := by
  have sWithin := offset_lt_of_tree hs
  have tWithin := offset_lt ht
  -- a point of two slots lies outside the center for both or for neither
  have level : s.level = t.level := by
    by_cases out : 0 < s.level
    · exact (eq_of_point_eq positive out sWithin tWithin same).2
    · by_cases other : 0 < t.level
      · exact (eq_of_point_eq positive other tWithin sWithin same.symm).2.symm
      · omega
  have tree : t ∈ treeSlots h := mem_treeSlots_iff.2
    ⟨ht, fun orphan => (level_lt_of_orphan hs ht orphan).ne level⟩
  by_cases out : 0 < s.level
  · have offset := (eq_of_point_eq positive out sWithin tWithin same).1
    exact slot_unique (treeSlots_increase h) hs tree level offset
  · exact center_unique hs tree (by omega) (by omega)

theorem trees_apart (h : Hierarchy) :
    Covers h h.roots (slots h) ∧
      (∀ s, s ∈ treeSlots h ↔ s ∈ slots h ∧ s.node ∉ h.orphans) ∧
      1 ≤ circumference h ∧
      (∀ s ∈ treeSlots h, s.offset < circumference h) ∧
      (∀ s ∈ treeSlots h, ∀ t ∈ treeSlots h,
        s.level = t.level → s.offset = t.offset → s.node = t.node) ∧
      (∀ s ∈ treeSlots h, ∀ t ∈ treeSlots h, s.level = 0 → t.level = 0 → s.node = t.node) ∧
      (∀ s ∈ treeSlots h, ∀ t ∈ slots h, t.node ∈ h.orphans → s.level < t.level) ∧
      ∀ spacing : ℝ, 0 < spacing → ∀ (a b : String) (p : Point ℝ), a ∉ h.orphans.ids →
        (positions spacing h)[a]? = some p → (positions spacing h)[b]? = some p → a = b := by
  have covers := covers_slots h
  refine ⟨covers, fun s => mem_treeSlots_iff, one_le_circumference h, fun s => offset_lt_of_tree,
    ?_, ?_, fun s hs t => level_lt_of_orphan hs, ?_⟩
  · intro s hs t ht level offset
    rw [slot_unique (treeSlots_increase h) hs ht level offset]
  · intro s hs t ht sCenter tCenter
    rw [center_unique hs ht sCenter tCenter]
  · intro spacing positive a b p tree ha hb
    obtain ⟨s, hs, rfl, here⟩ := (draw_eq_some_iff covers.nodup a p).1 ha
    obtain ⟨t, ht, rfl, there⟩ := (draw_eq_some_iff covers.nodup b p).1 hb
    rw [NodeSet.mem_ids, ← NodeSet.mem_iff] at tree
    rw [eq_of_tree_point_eq positive (mem_treeSlots_iff.2 ⟨hs, tree⟩) ht (here.trans there.symm)]

end DependencyAtlas.Layout.Radial
