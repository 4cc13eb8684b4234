import DependencyAtlas.Proofs.Layout.Counting
import DependencyAtlas.Proofs.Traversal.Coverage
import Mathlib.Analysis.SpecialFunctions.Trigonometric.Angle

set_option autoImplicit false

namespace DependencyAtlas

noncomputable instance : Coordinate ℝ where
  ofNat n := n
  fullTurn := 2 * Real.pi
  cos := Real.cos
  sin := Real.sin

theorem angle_unique {a b : ℝ} (ha : 0 ≤ a) (aTurn : a < 2 * Real.pi) (hb : 0 ≤ b)
    (bTurn : b < 2 * Real.pi) (cos : Real.cos a = Real.cos b) (sin : Real.sin a = Real.sin b) :
    a = b := by
  obtain ⟨turns, apart⟩ := Real.Angle.angle_eq_iff_two_pi_dvd_sub.1 (Real.Angle.cos_sin_inj cos sin)
  have positive : 0 < 2 * Real.pi := Real.two_pi_pos
  -- two angles within one turn differ by less than a turn
  have above : (turns : ℝ) < 1 := by
    by_contra more
    have := mul_le_mul_of_nonneg_left (not_lt.1 more) positive.le
    linarith
  have below : (-1 : ℝ) < turns := by
    by_contra less
    have := mul_le_mul_of_nonneg_left (not_lt.1 less) positive.le
    linarith
  have none : turns = 0 := by
    have : turns < 1 := by exact_mod_cast above
    have : -1 < turns := by exact_mod_cast below
    omega
  rw [none, Int.cast_zero, mul_zero] at apart
  linarith

theorem Point.polar_unique {a b r s : ℝ} (ha : 0 ≤ a) (aTurn : a < 2 * Real.pi) (hb : 0 ≤ b)
    (bTurn : b < 2 * Real.pi) (hr : 0 < r) (hs : 0 ≤ s) (same : polar a r = polar b s) :
    a = b ∧ r = s := by
  have x : Real.cos a * r = Real.cos b * s := congrArg Point.x same
  have y : Real.sin a * r = Real.sin b * s := congrArg Point.y same
  have squares : r ^ 2 = s ^ 2 := by
    calc r ^ 2 = (Real.cos a * r) ^ 2 + (Real.sin a * r) ^ 2 := by
          linear_combination (-r ^ 2) * Real.sin_sq_add_cos_sq a
      _ = (Real.cos b * s) ^ 2 + (Real.sin b * s) ^ 2 := by rw [x, y]
      _ = s ^ 2 := by linear_combination s ^ 2 * Real.sin_sq_add_cos_sq b
  have radius : r = s := (pow_left_inj₀ hr.le hs two_ne_zero).1 squares
  rw [← radius] at x y
  exact ⟨angle_unique ha aTurn hb bTurn (mul_right_cancel₀ hr.ne' x) (mul_right_cancel₀ hr.ne' y),
    radius⟩

namespace Layout

section

structure Covers (h : Hierarchy) (roots : NodeSet) (slots : List Slot) : Prop where
  nodup : (slots.map (·.node.id)).Nodup
  mem_iff : ∀ id, id ∈ slots.map (·.node.id) ↔ h.ReachedFrom roots id

theorem Covers.of_grows {h : Hierarchy} {roots after : NodeSet} {forest : Traversal.Forest}
    (grows : Traversal.Grows h roots.toList ∅ forest after) (level next : Nat) :
    Covers h roots (forest.slots level next) := by
  have ids : (forest.slots level next).map (·.node.id) = forest.ids := by
    rw [Traversal.Forest.ids, ← forest.nodes_slots level next, List.map_map]
    rfl
  constructor
  · rw [ids]
    exact grows.ids_nodup
  · intro id
    rw [ids, grows.mem_ids_iff Hierarchy.closed_empty]
    simp

variable {α : Type} {point : Slot → Point α} {slots : List Slot}

theorem slot_unique (increase : slots.Pairwise fun s t => s.level = t.level → s.offset < t.offset)
    {s t : Slot} (hs : s ∈ slots) (ht : t ∈ slots) (level : s.level = t.level)
    (offset : s.offset = t.offset) : s = t := by
  -- both ways round, as nothing says which of the two comes first
  have apart : slots.Pairwise fun s t => s.level = t.level → s.offset = t.offset → s = t :=
    increase.imp fun less level offset => absurd offset (Nat.ne_of_lt (less level))
  have flipped : slots.Pairwise (flip fun s t => s.level = t.level → s.offset = t.offset → s = t) :=
    apart.imp fun same level offset => (same level.symm offset.symm).symm
  exact apart.forall_of_forall_of_flip (fun _ _ _ _ => rfl) flipped hs ht level offset

def draw (point : Slot → Point α) (slots : List Slot) (before : Positions α) : Positions α :=
  slots.foldl (fun ps slot => ps.insert slot.node.id (point slot)) before

theorem getElem?_draw (nodup : (slots.map (·.node.id)).Nodup) (before : Positions α)
    (id : String) (p : Point α) :
    (draw point slots before)[id]? = some p ↔
      (∃ s ∈ slots, s.node.id = id ∧ point s = p) ∨
        id ∉ slots.map (·.node.id) ∧ before[id]? = some p := by
  induction slots generalizing before with
  | nil => simp [draw]
  | cons s rest ih =>
    rw [List.map_cons, List.nodup_cons] at nodup
    rw [draw, List.foldl_cons, ← draw, ih nodup.2, Std.ExtTreeMap.getElem?_insert]
    by_cases here : s.node.id = id
    · -- the rest has no slot of that id to replace this one's point
      have absent : id ∉ rest.map (·.node.id) := here ▸ nodup.1
      have others : ¬ ∃ t ∈ rest, t.node.id = id ∧ point t = p := by
        intro again
        obtain ⟨t, ht, same, -⟩ := again
        exact absent (List.mem_map.2 ⟨t, ht, same⟩)
      simp [here, others, absent]
    · simp [here, Ne.symm here]

theorem draw_eq_some_iff (nodup : (slots.map (·.node.id)).Nodup) (id : String) (p : Point α) :
    (draw point slots ∅)[id]? = some p ↔ ∃ s ∈ slots, s.node.id = id ∧ point s = p := by
  simp [getElem?_draw nodup]

theorem Covers.isSome_draw_iff {h : Hierarchy} {roots : NodeSet} (covers : Covers h roots slots)
    (point : Slot → Point α) (id : String) :
    ((draw point slots ∅)[id]?).isSome ↔ h.ReachedFrom roots id := by
  rw [← covers.mem_iff, List.mem_map, Option.isSome_iff_exists]
  constructor
  · intro drawn
    obtain ⟨p, hp⟩ := drawn
    obtain ⟨s, hs, same, -⟩ := (draw_eq_some_iff covers.nodup id p).1 hp
    exact ⟨s, hs, same⟩
  · intro listed
    obtain ⟨s, hs, same⟩ := listed
    exact ⟨point s, (draw_eq_some_iff covers.nodup id _).2 ⟨s, hs, same, rfl⟩⟩

end

open Traversal (Forest Grows)

namespace Tally

theorem counter : hooks.Counter Tally.next where
  offset _ _ := rfl
  advance _ _ := rfl
  assign _ _ _ _ := rfl

theorem shows_slots : hooks.Shows Tally.slots Array.push where
  advance _ _ := rfl
  assign _ _ _ _ := rfl

end Tally

namespace Linear

variable {h : Hierarchy}

theorem slots_of_grows {forest : Forest} {after : NodeSet}
    (grows : Grows h h.roots.toList ∅ forest after) : slots h = forest.slots 0 0 := by
  have told := Tally.counter.view_place Tally.shows_slots forest 0 {}
  rw [slots, tally, Traversal.placeRoots_of_grows Tally.hooks {} grows]
  change (forest.place Tally.hooks 0 {}).slots.toList = _
  rw [told, List.foldl_push_eq_append']
  simp

theorem covers_slots (h : Hierarchy) : Covers h h.roots (slots h) := by
  obtain ⟨forest, after, grows⟩ := Grows.exists_forest h h.roots.toList ∅
  rw [slots_of_grows grows]
  exact .of_grows grows 0 0

theorem slots_increase (h : Hierarchy) :
    (slots h).Pairwise fun s t => s.level = t.level → s.offset < t.offset := by
  obtain ⟨forest, after, grows⟩ := Grows.exists_forest h h.roots.toList ∅
  rw [slots_of_grows grows]
  exact forest.slots_increase 0 0

theorem point_unique {spacing : Spacing ℝ} (horizontal : 0 < spacing.horizontal)
    (vertical : 0 < spacing.vertical) {s t : Slot} (same : point spacing s = point spacing t) :
    s.level = t.level ∧ s.offset = t.offset := by
  have x : (s.level : ℝ) * spacing.horizontal = t.level * spacing.horizontal :=
    congrArg Point.x same
  have y : (s.offset : ℝ) * spacing.vertical = t.offset * spacing.vertical := congrArg Point.y same
  exact ⟨Nat.cast_injective (mul_right_cancel₀ horizontal.ne' x),
    Nat.cast_injective (mul_right_cancel₀ vertical.ne' y)⟩

theorem no_overlap (g : Graph) (rule : EdgeRule) :
    let h := Hierarchy.ofGraph g rule
    Covers h h.roots (slots h) ∧
      (∀ s ∈ slots h, ∀ t ∈ slots h,
        s.level = t.level → s.offset = t.offset → s.node = t.node) ∧
      (slots h).Pairwise (fun s t => s.level = t.level → s.offset < t.offset) ∧
      ∀ spacing : Spacing ℝ, 0 < spacing.horizontal → 0 < spacing.vertical →
        ∀ (a b : String) (p : Point ℝ),
          (positions spacing h)[a]? = some p → (positions spacing h)[b]? = some p → a = b := by
  intro h
  have covers := covers_slots h
  have increase := slots_increase h
  refine ⟨covers, ?_, increase, ?_⟩
  · intro s hs t ht level offset
    rw [slot_unique increase hs ht level offset]
  · intro spacing horizontal vertical a b p ha hb
    obtain ⟨s, hs, rfl, here⟩ := (draw_eq_some_iff covers.nodup a p).1 ha
    obtain ⟨t, ht, rfl, there⟩ := (draw_eq_some_iff covers.nodup b p).1 hb
    obtain ⟨level, offset⟩ := point_unique horizontal vertical (here.trans there.symm)
    rw [slot_unique increase hs ht level offset]

end Linear

end Layout

end DependencyAtlas
