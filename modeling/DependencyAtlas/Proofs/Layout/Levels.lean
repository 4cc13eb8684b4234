import DependencyAtlas.Proofs.Layout.Passes
import DependencyAtlas.Proofs.Traversal.ChildrenFirst

set_option autoImplicit false

namespace DependencyAtlas

open Layout (Slot)
open Traversal (Forest Grows Progress placeRoots)

theorem Call.node_slots (calls : List Call) : (slots calls).map (·.node) = nodes calls := by
  rw [slots, List.map_filterMap]
  refine List.filterMap_congr fun call _ => ?_
  cases call <;> rfl

namespace Traversal

variable {σ : Type} {h : Hierarchy} {cs : List Node} {visited after : NodeSet} {forest : Forest}

theorem slots_settleCalls (hooks : Hooks σ) (n : Node) (level left : Nat) (placed : Bool) (s : σ) :
    ∃ offset, Call.slots (settleCalls hooks n level left placed s) = [⟨n, level, offset⟩] := by
  unfold settleCalls
  dsimp only
  split
  · exact ⟨_, rfl⟩
  · exact ⟨_, rfl⟩

theorem Forest.slots_calls_cons (hooks : Hooks σ) (level : Nat) (n : Node) (below beside : Forest)
    (s : σ) :
    ∃ offset t, Call.slots ((cons n below beside).calls hooks level s) =
      Call.slots (below.calls hooks (level + 1) s) ++
        ⟨n, level, offset⟩ :: Call.slots (beside.calls hooks level t) := by
  let left := hooks.offset s (level + 1)
  let done := below.place hooks (level + 1) s
  obtain ⟨offset, own⟩ := slots_settleCalls hooks n level left (!below.isEmpty) done
  refine ⟨offset, settle hooks n level left (!below.isEmpty) done, ?_⟩
  rw [calls, Call.slots_append, Call.slots_append, own, List.append_assoc]
  rfl

-- The node that stands right above in the forest is a parent, and is assigned when all below it is.
theorem Grows.parent_later (grows : Grows h cs visited forest after) (hooks : Hooks σ) (level : Nat)
    (s : σ) {earlier later : List Slot} {t : Slot}
    (split : Call.slots (forest.calls hooks level s) = earlier ++ t :: later) :
    (t.node ∈ cs ∧ t.level = level) ∨
      ∃ u ∈ later, t.node ∈ (h.children u.node).toList ∧ t.level = u.level + 1 := by
  induction grows generalizing level s earlier later with
  | done => simp [Forest.calls, Call.slots] at split
  | skip _ _ ih => exact (ih level s split).imp_left fun first => first.imp_left (.tail _)
  | @enter n _ _ _ _ below beside _ _ _ ihBelow ihBeside =>
    obtain ⟨offset, done, row⟩ := Forest.slots_calls_cons hooks level n below beside s
    rw [row] at split
    rcases append_eq_append_cons split with ⟨rest, inBelow, rfl⟩ | ⟨rest, -, others⟩
    · right
      rcases ihBelow (level + 1) s inBelow with ⟨child, deeper⟩ | ⟨u, hu, parent⟩
      · refine ⟨⟨n, level, offset⟩, ?_, (mem_orderedChildren.1 child).1, deeper⟩
        exact List.mem_append_right _ List.mem_cons_self
      · exact ⟨u, List.mem_append_left _ hu, parent⟩
    · cases rest with
      | nil =>
        obtain ⟨rfl, -⟩ := List.cons.inj others
        exact .inl ⟨List.mem_cons_self, rfl⟩
      | cons _ rest =>
        obtain ⟨-, inBeside⟩ := List.cons.inj others
        exact (ihBeside level done inBeside).imp_left fun first => first.imp_left (.tail _)

end Traversal

namespace Layout

-- Each slot is at the top level, or one level beyond a later slot.
def Descends (top : Nat) (slots : List Slot) : Prop :=
  ∀ earlier t later, slots = earlier ++ t :: later → t.level = top ∨ ∃ u ∈ later, t.level = u.level + 1

variable {top : Nat} {slots rest : List Slot} {t : Slot}

theorem Descends.tail (descends : Descends top (t :: rest)) : Descends top rest :=
  fun earlier u later split => descends (t :: earlier) u later (by rw [split, List.cons_append])

theorem Descends.levels (descends : Descends top slots) :
    ∀ t ∈ slots, top ≤ t.level ∧ t.level < top + slots.length ∧
      ∀ level, top ≤ level → level ≤ t.level → ∃ u ∈ slots, u.level = level := by
  induction slots with
  | nil => simp
  | cons first rest ih =>
    have others := ih descends.tail
    intro t ht
    rw [List.length_cons]
    rcases List.mem_cons.1 ht with rfl | later
    · rcases descends [] t rest rfl with start | ⟨u, hu, next⟩
      · refine ⟨by omega, by omega, fun level above below => ⟨t, ht, by omega⟩⟩
      · obtain ⟨bound, count, used⟩ := others u hu
        refine ⟨by omega, by omega, fun level above below => ?_⟩
        by_cases own : t.level = level
        · exact ⟨t, ht, own⟩
        · obtain ⟨v, hv, here⟩ := used level above (by omega)
          exact ⟨v, List.mem_cons_of_mem _ hv, here⟩
    · obtain ⟨bound, count, used⟩ := others t later
      refine ⟨bound, by omega, fun level above below => ?_⟩
      obtain ⟨v, hv, here⟩ := used level above below
      exact ⟨v, List.mem_cons_of_mem _ hv, here⟩

variable {σ : Type} {h : Hierarchy} {roots after : NodeSet} {forest : Forest} {hooks : Hooks σ}
  {s : σ}

-- A node below another one is no root of the hierarchy, and so no start of the traversal.
theorem top_or_parent (grows : Grows h roots.toList ∅ forest after) (own : roots.Within h.roots)
    {earlier later : List Slot}
    (split : Call.slots (forest.calls hooks top s) = earlier ++ t :: later) :
    (t.node ∈ roots → t.node ∈ roots.toList ∧ t.level = top) ∧
      (t.node ∉ roots → ∃ u ∈ later, u.node ∈ h.parents t.node ∧ t.level = u.level + 1) := by
  rcases grows.parent_later hooks top s split with ⟨start, level⟩ | ⟨u, hu, child, level⟩
  · exact ⟨fun _ => ⟨start, level⟩, fun other => absurd (NodeSet.mem_of_mem_toList start) other⟩
  · refine ⟨fun root => ?_, fun _ => ⟨u, hu, ?_, level⟩⟩
    · exact absurd (own.mem root) (Hierarchy.not_mem_roots_of_child child)
    · exact Hierarchy.mem_children_comm.1 (NodeSet.mem_of_mem_toList child)

theorem ids_slots_calls (forest : Forest) (hooks : Hooks σ) (top : Nat) (s : σ) :
    (Call.slots (forest.calls hooks top s)).map (·.node.id) = forest.ids := by
  rw [Forest.ids, ← Forest.nodes_calls hooks forest top s, ← Call.node_slots, List.map_map]
  rfl

-- A node is one level beyond a parent that is assigned later, so that no level is left out.
theorem levels_linked (h : Hierarchy) (hooks : Hooks σ) (roots : NodeSet) (s : σ)
    (own : roots.Within h.roots) :
    let top := hooks.rootLevel s roots
    let ran := placeRoots h hooks.recorded roots ⟨∅, (s, [])⟩
    let slots := Call.slots ran.state.2
    placeRoots h hooks roots ⟨∅, s⟩ = ⟨ran.visited, ran.state.1⟩ ∧
      (slots.map (·.node.id)).Nodup ∧
      (∀ r ∈ roots.toList, ∃ t ∈ slots, t.node = r ∧ t.level = top) ∧
      (∀ earlier t later, slots = earlier ++ t :: later → t.node ∉ roots →
        top < t.level ∧ ∃ u ∈ later, u.node ∈ h.parents t.node ∧ t.level = u.level + 1) ∧
      ∀ t ∈ slots, t.level < top + slots.length ∧
        ∀ level, top ≤ level → level ≤ t.level → ∃ u ∈ slots, u.level = level := by
  intro top ran slots
  obtain ⟨forest, after, grows⟩ := Grows.exists_forest h roots.toList ∅
  have done : ran = ⟨after, forest.place hooks top s, forest.calls hooks top s⟩ :=
    Traversal.placeRoots_recorded hooks s [] grows
  have told : slots = Call.slots (forest.calls hooks top s) :=
    congrArg (fun p => Call.slots p.state.2) done
  have ids : slots.map (·.node.id) = forest.ids := told ▸ ids_slots_calls forest hooks top s
  have each {earlier later : List Slot} {t : Slot} (split : slots = earlier ++ t :: later) :=
    top_or_parent grows own (told ▸ split)
  have descends : Descends top slots := by
    intro earlier t later split
    by_cases root : t.node ∈ roots
    · exact .inl ((each split).1 root).2
    · obtain ⟨u, hu, -, level⟩ := (each split).2 root
      exact .inr ⟨u, hu, level⟩
  refine ⟨hooks.placeRoots_eq_recorded h roots ∅ s [], ids ▸ grows.ids_nodup, ?_, ?_, ?_⟩
  · intro r hr
    have placed : r.id ∈ slots.map (·.node.id) := by
      rw [ids]
      exact (grows.mem_after.1 (grows.starts_visited r hr)).resolve_left (by simp)
    obtain ⟨t, ht, same⟩ := List.mem_map.1 placed
    obtain ⟨earlier, later, split⟩ := List.append_of_mem ht
    have root : t.node ∈ roots := (NodeSet.mem_congr same).2 (NodeSet.mem_of_mem_toList hr)
    obtain ⟨listed, level⟩ := (each split).1 root
    exact ⟨t, ht, NodeSet.eq_of_mem_toList listed hr same, level⟩
  · intro earlier t later split other
    obtain ⟨u, hu, parent, level⟩ := (each split).2 other
    have above := (descends.levels u (by simp [split, hu])).1
    exact ⟨by omega, u, hu, parent, level⟩
  · exact fun t ht => (descends.levels t ht).2

def detour : Hierarchy :=
  .ofPairs (.ofNodes [.named "a", .named "b", .named "c", .named "q", .named "r"])
    [(.named "r", .named "a"), (.named "r", .named "b"), (.named "a", .named "b"),
      (.named "b", .named "c"), (.named "q", .named "c")]
    (by simp [NodeSet.find?_ofNodes, Node.named]) (by simp [Node.named])

def detourSlots : List Slot :=
  Call.slots (placeRoots detour Tally.hooks.recorded (.singleton (.named "r")) ⟨∅, ({}, [])⟩).state.2

-- The second node is right below the root, and two levels beyond it.
theorem detour_linked :
    (NodeSet.singleton (.named "r")).Within detour.roots ∧
      detourSlots = [⟨.named "c", 3, 0⟩, ⟨.named "b", 2, 0⟩, ⟨.named "a", 1, 0⟩, ⟨.named "r", 0, 0⟩] ∧
      ∃ u ∈ ([⟨.named "a", 1, 0⟩, ⟨.named "r", 0, 0⟩] : List Slot),
        u.node ∈ detour.parents (.named "b") ∧ 2 = u.level + 1 := by
  have own : (NodeSet.singleton (.named "r")).Within detour.roots :=
    NodeSet.singleton_within.2 (by decide +kernel)
  have placed : detourSlots = [⟨.named "c", 3, 0⟩, ⟨.named "b", 2, 0⟩, ⟨.named "a", 1, 0⟩,
      ⟨.named "r", 0, 0⟩] := by cbv
  obtain ⟨-, -, -, linked, -⟩ := levels_linked detour Tally.hooks (.singleton (.named "r")) {} own
  have other : .named "b" ∉ NodeSet.singleton (.named "r") := by decide +kernel
  obtain ⟨-, parent⟩ := linked [⟨.named "c", 3, 0⟩] ⟨.named "b", 2, 0⟩ _ placed other
  exact ⟨own, placed, parent⟩

end Layout

end DependencyAtlas
