import DependencyAtlas.Proofs.Hierarchy
import DependencyAtlas.Proofs.Traversal.Calls
import Mathlib.Data.List.Induction

set_option autoImplicit false

namespace DependencyAtlas

namespace Traversal

def Forest.ids (forest : Forest) : List String := forest.nodes.map (·.id)

@[simp] theorem Forest.ids_nil : Forest.nil.ids = [] := rfl

@[simp] theorem Forest.ids_cons (n : Node) (below beside : Forest) :
    (Forest.cons n below beside).ids = below.ids ++ n.id :: beside.ids := by
  simp [Forest.ids]

namespace Grows

variable {h : Hierarchy} {cs : List Node} {visited after : NodeSet} {forest : Forest}

theorem visited_iff (grows : Grows h cs visited forest after) (id : String) :
    (after.find? id).isSome ↔ (visited.find? id).isSome ∨ id ∈ forest.ids := by
  induction grows with
  | done => simp
  | skip _ _ ih => exact ih
  | enter _ _ _ ihBelow ihBeside =>
    rw [ihBeside, ihBelow, NodeSet.isSome_find?_add, Forest.ids_cons, List.mem_append,
      List.mem_cons]
    grind

theorem mem_after (grows : Grows h cs visited forest after) {n : Node} :
    n ∈ after ↔ n ∈ visited ∨ n.id ∈ forest.ids := by
  rw [NodeSet.mem_iff, NodeSet.mem_iff, grows.visited_iff]

theorem fresh (grows : Grows h cs visited forest after) :
    ∀ id ∈ forest.ids, ¬ (visited.find? id).isSome := by
  induction grows with
  | done => simp
  | skip _ _ ih => exact ih
  | @enter c _ _ _ _ _ _ hc below _ ihBelow ihBeside =>
    intro id hid known
    have entered := NodeSet.within_add _ c id known
    rw [Forest.ids_cons, List.mem_append, List.mem_cons] at hid
    rcases hid with inBelow | here | inBeside
    · exact ihBelow id inBelow entered
    · rw [here] at known
      exact hc (NodeSet.mem_iff.2 known)
    · exact ihBeside id inBeside (below.within id entered)

theorem ids_nodup (grows : Grows h cs visited forest after) : forest.ids.Nodup := by
  induction grows with
  | done => exact List.nodup_nil
  | skip _ _ ih => exact ih
  | @enter c _ visited _ _ _ _ _ growsBelow growsBeside ihBelow ihBeside =>
    have self : ((visited.add c).find? c.id).isSome :=
      NodeSet.mem_iff.1 (NodeSet.mem_add_self visited c)
    rw [Forest.ids_cons, List.nodup_append, List.nodup_cons]
    refine ⟨ihBelow, ⟨fun again => ?_, ihBeside⟩, ?_⟩
    · exact growsBeside.fresh _ again (growsBelow.within _ self)
    · intro id inBelow other hother same
      rw [← same] at hother
      rcases List.mem_cons.1 hother with here | inBeside
      · exact growsBelow.fresh id inBelow (here ▸ self)
      · exact growsBeside.fresh id inBeside ((growsBelow.visited_iff id).2 (.inr inBelow))

theorem starts_visited (grows : Grows h cs visited forest after) : ∀ c ∈ cs, c ∈ after := by
  induction grows with
  | done => simp
  | skip hv rest ih =>
    intro c hc
    rcases List.mem_cons.1 hc with here | later
    · exact here ▸ rest.within.mem hv
    · exact ih c later
  | enter _ growsBelow growsBeside _ ih =>
    intro c hc
    rcases List.mem_cons.1 hc with here | later
    · exact here ▸ (growsBelow.within.trans growsBeside.within).mem (NodeSet.mem_add_self _ _)
    · exact ih c later

-- A child that a node does not enter has been visited before, by another parent.
theorem children_visited (grows : Grows h cs visited forest after) :
    ∀ n ∈ forest.nodes, ∀ c ∈ (h.children n).toList, c ∈ after := by
  induction grows with
  | done => simp
  | skip _ _ ih => exact ih
  | @enter n _ visited _ _ _ _ _ growsBelow growsBeside ihBelow ihBeside =>
    intro m hm c child
    rw [Forest.nodes_cons, List.mem_append, List.mem_cons] at hm
    rcases hm with inBelow | here | inBeside
    · exact growsBeside.within.mem (ihBelow m inBelow c child)
    · rw [here] at child
      apply growsBeside.within.mem
      by_cases known : c ∈ visited.add n
      · exact growsBelow.within.mem known
      · exact growsBelow.starts_visited c (mem_orderedChildren.2 ⟨child, known⟩)
    · exact ihBeside m inBeside c child

theorem reached (grows : Grows h cs visited forest after) :
    ∀ n ∈ forest.nodes, ∃ c ∈ cs, h.Reaches c n := by
  induction grows with
  | done => simp
  | skip _ _ ih =>
    intro n hn
    obtain ⟨c, hc, reaches⟩ := ih n hn
    exact ⟨c, List.mem_cons_of_mem _ hc, reaches⟩
  | @enter c _ _ _ _ _ _ _ _ _ ihBelow ihBeside =>
    intro n hn
    rw [Forest.nodes_cons, List.mem_append, List.mem_cons] at hn
    rcases hn with inBelow | here | inBeside
    · obtain ⟨d, hd, reaches⟩ := ihBelow n inBelow
      exact ⟨c, List.mem_cons_self, .step (mem_orderedChildren.1 hd).1 reaches⟩
    · rw [here]
      exact ⟨c, List.mem_cons_self, .refl c⟩
    · obtain ⟨d, hd, reaches⟩ := ihBeside n inBeside
      exact ⟨d, List.mem_cons_of_mem _ hd, reaches⟩

theorem closed_after (grows : Grows h cs visited forest after) (closed : h.Closed visited) :
    h.Closed after := by
  intro n hn c child
  rcases grows.mem_after.1 hn with known | inForest
  · exact grows.within.mem (closed n known c child)
  · obtain ⟨m, hm, same⟩ := List.mem_map.1 inForest
    apply grows.children_visited m hm c
    rw [Hierarchy.children, same]
    exact child

theorem mem_ids_iff {roots : NodeSet} (grows : Grows h roots.toList visited forest after)
    (closed : h.Closed visited) (id : String) :
    id ∈ forest.ids ↔ h.ReachedFrom roots id ∧ ¬ (visited.find? id).isSome := by
  constructor
  · intro hid
    obtain ⟨n, hn, same⟩ := List.mem_map.1 hid
    obtain ⟨r, hr, reaches⟩ := grows.reached n hn
    exact ⟨⟨r, hr, n, reaches, same⟩, grows.fresh id hid⟩
  · intro new
    obtain ⟨⟨r, hr, n, reaches, rfl⟩, unknown⟩ := new
    have present := (grows.closed_after closed).reaches reaches (grows.starts_visited r hr)
    rcases grows.mem_after.1 present with known | inForest
    · exact absurd (NodeSet.mem_iff.1 known) unknown
    · exact inForest

theorem visited_iff_reached {roots : NodeSet} (grows : Grows h roots.toList visited forest after)
    (closed : h.Closed visited) (id : String) :
    (after.find? id).isSome ↔ (visited.find? id).isSome ∨ h.ReachedFrom roots id := by
  rw [grows.visited_iff, grows.mem_ids_iff closed]
  by_cases known : (visited.find? id).isSome <;> simp [known]

end Grows

variable {h : Hierarchy} {σ : Type}

def placeInTurn (h : Hierarchy) (hooks : Hooks σ) (series : List NodeSet) (p : Progress σ) :
    Progress σ :=
  series.foldl (fun p roots => placeRoots h hooks roots p) p

-- One run, whatever was visited before it: the forest that it places is the same for all hooks.
theorem placeRoots_visits {visited : NodeSet} (closed : h.Closed visited) (roots : NodeSet) :
    ∃ forest after, Grows h roots.toList visited forest after ∧ h.Closed after ∧
      ∀ id, (after.find? id).isSome ↔ (visited.find? id).isSome ∨ h.ReachedFrom roots id := by
  obtain ⟨forest, after, grows⟩ := Grows.exists_forest h roots.toList visited
  exact ⟨forest, after, grows, grows.closed_after closed, grows.visited_iff_reached closed⟩

theorem placeInTurn_append (hooks : Hooks σ) (series : List NodeSet) (roots : NodeSet)
    (p : Progress σ) :
    placeInTurn h hooks (series ++ [roots]) p =
      placeRoots h hooks roots (placeInTurn h hooks series p) := by
  rw [placeInTurn, List.foldl_append]
  rfl

-- A series of runs, with and without a record of the calls: what holds at its start, and is kept by
-- every forest that is placed on top, holds at its end.
theorem placeInTurn_induction (h : Hierarchy) (hooks : Hooks σ) (s : σ) (series : List NodeSet)
    (holds : List NodeSet → NodeSet → List Node → Prop) (start : holds [] ∅ [])
    (step : ∀ {earlier roots visited order forest after}, holds earlier visited order →
      Grows h roots.toList visited forest after →
      holds (earlier ++ [roots]) after (order ++ forest.nodes)) :
    ∃ visited state past,
      placeInTurn h hooks series ⟨∅, s⟩ = ⟨visited, state⟩ ∧
      placeInTurn h hooks.recorded series ⟨∅, (s, [])⟩ = ⟨visited, (state, past)⟩ ∧
      holds series visited (Call.nodes past) := by
  induction series using List.reverseRecOn with
  | nil => exact ⟨∅, s, [], rfl, rfl, start⟩
  | append_singleton series roots ih =>
    obtain ⟨visited, state, past, plain, recorded, known⟩ := ih
    obtain ⟨forest, after, grows⟩ := Grows.exists_forest h roots.toList visited
    refine ⟨after, forest.place hooks (hooks.rootLevel state roots) state,
      past ++ forest.calls hooks (hooks.rootLevel state roots) state, ?_, ?_, ?_⟩
    · rw [placeInTurn_append, plain, placeRoots_of_grows hooks state grows]
    · rw [placeInTurn_append, recorded, placeRoots_recorded hooks state past grows]
    · rw [Call.nodes_append, Forest.nodes_calls]
      exact step known grows

theorem placeInTurn_visits (h : Hierarchy) (hooks : Hooks σ) (s : σ) (series : List NodeSet) :
    ∃ visited state past,
      placeInTurn h hooks series ⟨∅, s⟩ = ⟨visited, state⟩ ∧
      placeInTurn h hooks.recorded series ⟨∅, (s, [])⟩ = ⟨visited, (state, past)⟩ ∧
      h.Closed visited ∧
      ∀ id, (visited.find? id).isSome ↔ ∃ roots ∈ series, h.ReachedFrom roots id := by
  refine placeInTurn_induction h hooks s series
    (fun series visited _ => h.Closed visited ∧
      ∀ id, (visited.find? id).isSome ↔ ∃ roots ∈ series, h.ReachedFrom roots id)
    ⟨Hierarchy.closed_empty, by simp⟩ ?_
  intro earlier roots visited order forest after known grows
  obtain ⟨closed, reached⟩ := known
  refine ⟨grows.closed_after closed, fun id => ?_⟩
  rw [grows.visited_iff_reached closed, reached]
  simp [or_and_right, exists_or]

-- Each run assigns, once, what its roots reach and no earlier roots did.
theorem placeInTurn_covers (h : Hierarchy) (hooks : Hooks σ) (s : σ) (earlier : List NodeSet)
    (roots : NodeSet) :
    let before := placeInTurn h hooks.recorded earlier ⟨∅, (s, [])⟩
    let after := placeRoots h hooks.recorded roots before
    placeRoots h hooks roots (placeInTurn h hooks earlier ⟨∅, s⟩) =
        ⟨after.visited, after.state.1⟩ ∧
      (∃ calls, after.state.2 = before.state.2 ++ calls ∧
        ((Call.nodes calls).map (·.id)).Nodup ∧
        ∀ id, id ∈ (Call.nodes calls).map (·.id) ↔
          h.ReachedFrom roots id ∧ ∀ others ∈ earlier, ¬ h.ReachedFrom others id) ∧
      ∀ id, (after.visited.find? id).isSome ↔
        ∃ given ∈ earlier ++ [roots], h.ReachedFrom given id := by
  intro before after
  obtain ⟨visited, state, past, plain, recorded, closed, reached⟩ :=
    placeInTurn_visits h hooks s earlier
  obtain ⟨forest, last, grows, -, visits⟩ := placeRoots_visits closed roots
  have ran : after = ⟨last, forest.place hooks (hooks.rootLevel state roots) state,
      past ++ forest.calls hooks (hooks.rootLevel state roots) state⟩ := by
    rw [← placeRoots_recorded hooks state past grows, ← recorded]
  have start : before = ⟨visited, (state, past)⟩ := recorded
  rw [ran, start, plain, placeRoots_of_grows hooks state grows]
  refine ⟨rfl, ⟨forest.calls hooks (hooks.rootLevel state roots) state, rfl, ?_⟩, ?_⟩
  · rw [Forest.nodes_calls]
    refine ⟨grows.ids_nodup, fun id => (grows.mem_ids_iff closed id).trans ?_⟩
    rw [reached]
    simp
  · intro id
    rw [visits, reached]
    simp [or_and_right, exists_or]

end Traversal

end DependencyAtlas
