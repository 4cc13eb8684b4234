import DependencyAtlas.Proofs.Layout.Passes

set_option autoImplicit false

namespace DependencyAtlas

open Layout (Slot)
open Traversal

def Call.level : Call → Nat
  | .assign _ level _ => level
  | .advance level => level

theorem Call.mem_of_mem_slots {calls : List Call} {t : Slot} (ht : t ∈ slots calls) :
    .assign t.node t.level t.offset ∈ calls := by
  obtain ⟨call, told, same⟩ := List.mem_filterMap.1 ht
  cases call with
  | assign n level offset =>
    cases same
    exact told
  | advance level => cases same

namespace Traversal

variable {h : Hierarchy} {cs : List Node} {roots visited after : NodeSet} {forest : Forest}
  {σ : Type} {hooks : Hooks σ}

theorem unvisited_le (h : Hierarchy) (visited : NodeSet) : unvisited h visited ≤ h.nodeCount :=
  Std.ExtTreeSet.size_diff_le_size_left

theorem Grows.length_add_unvisited_le (grows : Grows h cs visited forest after)
    (inside : ∀ c ∈ cs, c ∈ h.nodes) :
    forest.nodes.length + unvisited h after ≤ unvisited h visited := by
  induction grows with
  | done => simp
  | skip _ _ ih => exact ih fun d hd => inside d (.tail _ hd)
  | enter fresh _ _ ihBelow ihBeside =>
    have entered := unvisited_add_lt (inside _ List.mem_cons_self) fresh
    have below := ihBelow fun _ => mem_nodes_of_mem_orderedChildren
    have beside := ihBeside fun d hd => inside d (.tail _ hd)
    rw [Forest.nodes_cons, List.length_append, List.length_cons]
    omega

theorem level_settleCalls (hooks : Hooks σ) (n : Node) (level left : Nat) (placed : Bool) (s : σ) :
    ∀ call ∈ settleCalls hooks n level left placed s, call.level = level := by
  unfold settleCalls
  dsimp only
  split <;> simp [Call.level]

theorem Forest.level_lt (forest : Forest) (hooks : Hooks σ) (level : Nat) (s : σ) :
    ∀ call ∈ forest.calls hooks level s, call.level < level + forest.nodes.length := by
  induction forest generalizing level s with
  | nil => simp [calls]
  | cons n below beside ihBelow ihBeside =>
    intro call told
    rw [calls, List.mem_append, List.mem_append] at told
    rw [nodes_cons, List.length_append, List.length_cons]
    rcases told with (inBelow | own) | inBeside
    · have := ihBelow (level + 1) s call inBelow
      omega
    · have := level_settleCalls hooks n level _ _ _ call own
      omega
    · have := ihBeside level _ call inBeside
      omega

theorem Forest.leaves_le_length (forest : Forest) : forest.leaves ≤ forest.nodes.length := by
  induction forest with
  | nil => simp
  | cons n below beside ihBelow ihBeside =>
    rw [leaves_cons, nodes_cons, List.length_append, List.length_cons]
    omega

theorem mem_nodes_of_within (own : roots.Within h.nodes) : ∀ r ∈ roots.toList, r ∈ h.nodes :=
  fun _ hr => own.mem (NodeSet.mem_of_mem_toList hr)

-- With any hooks, machine words do for the levels of a run, the one below the last included, if they
-- hold the root level plus the number of nodes.
theorem placeRoots_level_lt (hooks : Hooks σ) (own : roots.Within h.nodes) (visited : NodeSet)
    (s : σ) :
    ∀ call ∈ (placeRoots h hooks.recorded roots ⟨visited, (s, [])⟩).state.2,
      call.level < hooks.rootLevel s roots + unvisited h visited := by
  obtain ⟨forest, after, grows⟩ := Grows.exists_forest h roots.toList visited
  have placed := grows.length_add_unvisited_le (mem_nodes_of_within own)
  rw [placeRoots_recorded hooks s [] grows, List.nil_append]
  intro call told
  have := forest.level_lt hooks _ s call told
  omega

end Traversal

namespace Hooks.Counter

variable {h : Hierarchy} {roots : NodeSet} {σ : Type} {hooks : Hooks σ} {next : σ → Nat}

theorem recorded (counter : hooks.Counter next) : hooks.recorded.Counter fun s => next s.1 where
  offset s level := counter.offset s.1 level
  advance s level := counter.advance s.1 level
  assign s n level offset := counter.assign s.1 n level offset

theorem recorded_shows_slots (hooks : Hooks σ) :
    hooks.recorded.Shows (fun s => (Call.slots s.2).toArray) Array.push where
  advance _ _ := by simp [Hooks.recorded, Call.slots, Call.slot?]
  assign _ _ _ _ := by simp [Hooks.recorded, Call.slots, Call.slot?]

theorem slots_calls (counter : hooks.Counter next) (forest : Forest) (level : Nat) (s : σ) :
    Call.slots (forest.calls hooks level s) = forest.slots level (next s) := by
  have told := counter.recorded.view_place (recorded_shows_slots hooks) forest level (s, [])
  rw [Forest.place_recorded, List.foldl_push_eq_append'] at told
  simpa [Call.slots] using congrArg Array.toList told

-- No more offsets are used up than nodes are placed, which bounds later runs too.
theorem placeRoots_offset_lt (counter : hooks.Counter next) (own : roots.Within h.nodes)
    (visited : NodeSet) (s : σ) :
    let ran := placeRoots h hooks.recorded roots ⟨visited, (s, [])⟩
    next ran.state.1 + unvisited h ran.visited ≤ next s + unvisited h visited ∧
      ∀ t ∈ Call.slots ran.state.2, t.offset < next ran.state.1 := by
  intro ran
  obtain ⟨forest, after, grows⟩ := Grows.exists_forest h roots.toList visited
  have placed := grows.length_add_unvisited_le (mem_nodes_of_within own)
  have used := forest.leaves_le_length
  have done : ran = _ := placeRoots_recorded hooks s [] grows
  rw [done, List.nil_append, counter.slots_calls]
  dsimp only
  rw [counter.next_place]
  exact ⟨by omega, fun t ht => (forest.offset_mem _ _ t ht).2⟩

-- For the offsets they have to hold twice the sum of the first one and the number of nodes, since two
-- offsets are added to find the middle.
theorem slot_lt (counter : hooks.Counter next) (own : roots.Within h.nodes) (s : σ) :
    ∀ t ∈ Call.slots (placeRoots h hooks.recorded roots ⟨∅, (s, [])⟩).state.2,
      t.level < hooks.rootLevel s roots + h.nodeCount ∧ t.offset < next s + h.nodeCount := by
  intro t ht
  have free := unvisited_le h ∅
  have level := placeRoots_level_lt hooks own ∅ s _ (Call.mem_of_mem_slots ht)
  obtain ⟨used, offsets⟩ := counter.placeRoots_offset_lt own ∅ s
  have offset := offsets t ht
  dsimp only [Call.level] at level
  exact ⟨by omega, by omega⟩

end Hooks.Counter

namespace Layout

theorem roots_within (h : Hierarchy) : h.roots.Within h.nodes := NodeSet.keep_within _ _

theorem innerRoots_within (h : Hierarchy) : h.innerRoots.Within h.nodes :=
  (NodeSet.keep_within _ _).trans (roots_within h)

theorem Linear.slots_eq_calls (h : Hierarchy) :
    slots h = Call.slots (placeRoots h Tally.hooks.recorded h.roots ⟨∅, ({}, [])⟩).state.2 := by
  rw [slots, tally, Tally.shows_slots.view_placeRoots h h.roots ∅ {}, List.foldl_push_eq_append']
  simp

theorem Linear.slot_lt (h : Hierarchy) :
    ∀ t ∈ slots h, t.level < h.nodeCount ∧ t.offset < h.nodeCount := by
  intro t ht
  rw [slots_eq_calls] at ht
  have := Tally.counter.slot_lt (roots_within h) {} t ht
  simpa [Tally.hooks] using this

namespace Radial

variable {h : Hierarchy}

theorem rootLevel_le (roots : Nat) : rootLevel roots ≤ 3 := by
  unfold rootLevel
  split_ifs <;> omega

theorem level_lt_of_tree {t : Slot} (ht : t ∈ treeSlots h) : t.level < 3 + h.nodeCount := by
  rw [treeSlots_eq_calls] at ht
  have := (Placing.counter.slot_lt (innerRoots_within h) {} t ht).1
  have start := rootLevel_le h.innerRoots.size
  dsimp only [Placing.hooks] at this
  omega

theorem orphanLevel_le (h : Hierarchy) : orphanLevel h ≤ 3 + h.nodeCount := by
  by_cases some : treeSlots h = []
  · obtain ⟨forest, after, grows⟩ := Grows.exists_forest h h.innerRoots.toList ∅
    rw [orphanLevel_eq grows, ← treeSlots_eq grows, some]
    exact Nat.zero_le _
  · obtain ⟨t, ht, -, ring⟩ := orphanLevel_eq_deepest some
    have := level_lt_of_tree ht
    omega

theorem circumference_le (h : Hierarchy) : circumference h ≤ max 1 h.nodeCount := by
  obtain ⟨forest, after, grows⟩ := Grows.exists_forest h h.innerRoots.toList ∅
  have placed := grows.length_add_unvisited_le (mem_nodes_of_within (innerRoots_within h))
  have used := forest.leaves_le_length
  have free := unvisited_le h ∅
  have alone : h.orphans.size ≤ h.nodeCount :=
    ((NodeSet.keep_within _ _).trans (roots_within h)).size_le
  rw [circumference, next_survey grows]
  omega

theorem slot_lt (h : Hierarchy) :
    circumference h ≤ max 1 h.nodeCount ∧
      ∀ t ∈ slots h, t.level ≤ 3 + h.nodeCount ∧ t.offset < circumference h := by
  refine ⟨circumference_le h, fun t ht => ⟨?_, offset_lt ht⟩⟩
  rcases List.mem_append.1 ht with inTree | orphan
  · exact (level_lt_of_tree inTree).le
  · rw [(mem_orphanSlots orphan).2.1]
    exact orphanLevel_le h

end Radial

end Layout

end DependencyAtlas
