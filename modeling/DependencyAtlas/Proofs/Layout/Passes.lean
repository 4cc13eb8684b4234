import DependencyAtlas.Proofs.Layout.Radial

set_option autoImplicit false

namespace DependencyAtlas

open Layout (Slot)
open Traversal (Forest placeRoots)

def Call.slot? : Call → Option Slot
  | .assign n level offset => some ⟨n, level, offset⟩
  | .advance _ => none

def Call.slots (calls : List Call) : List Slot := calls.filterMap Call.slot?

@[simp] theorem Call.slots_append (a b : List Call) : slots (a ++ b) = slots a ++ slots b :=
  List.filterMap_append

namespace Hooks.Shows

variable {σ α : Type} {hooks : Hooks σ} {view : σ → α} {step : α → Slot → α}

theorem view_settle_calls (shows : hooks.Shows view step) (n : Node) (level left : Nat)
    (placed : Bool) (s : σ) :
    view (Traversal.settle hooks n level left placed s) =
      (Call.slots (Traversal.settleCalls hooks n level left placed s)).foldl step (view s) := by
  unfold Traversal.settle Traversal.settleCalls
  dsimp only
  split
  · exact shows.assign s n level _
  · rw [shows.advance, shows.assign]
    rfl

-- No counter is needed here: whatever the offsets are, the view shows the calls.
theorem view_place_calls (shows : hooks.Shows view step) (forest : Forest) (level : Nat) (s : σ) :
    view (forest.place hooks level s) =
      (Call.slots (forest.calls hooks level s)).foldl step (view s) := by
  induction forest generalizing level s with
  | nil => rfl
  | cons n below beside ihBelow ihBeside =>
    rw [Forest.place_cons, ihBeside, shows.view_settle_calls, ihBelow, Forest.calls,
      Call.slots_append, Call.slots_append, List.foldl_append, List.foldl_append]

theorem view_placeRoots (shows : hooks.Shows view step) (h : Hierarchy) (roots visited : NodeSet)
    (s : σ) :
    view (placeRoots h hooks roots ⟨visited, s⟩).state =
      (Call.slots (placeRoots h hooks.recorded roots ⟨visited, (s, [])⟩).state.2).foldl step
        (view s) := by
  obtain ⟨forest, after, grows⟩ := Traversal.Grows.exists_forest h roots.toList visited
  rw [Traversal.placeRoots_of_grows hooks s grows, Traversal.placeRoots_recorded hooks s [] grows,
    List.nil_append]
  exact shows.view_place_calls forest _ s

end Hooks.Shows

namespace Layout.Radial

theorem Survey.shows_deepest :
    Survey.hooks.Shows Survey.deepest fun deepest slot => deeper deepest slot.level where
  advance _ _ := rfl
  assign _ _ _ _ := rfl

theorem Placing.shows_deepest :
    Placing.hooks.Shows Placing.deepest fun deepest slot => deeper deepest slot.level where
  advance _ _ := rfl
  assign _ _ _ _ := rfl

-- The counters run alike; the levels that are found on the way have no say.
theorem passes_alike :
    Survey.hooks.Alike Placing.hooks fun s t => s.next = t.next where
  offset _ _ same _ := same
  advance _ _ same _ := congrArg (· + 1) same
  assignLeft _ _ same _ _ _ := same
  assignRight _ _ same _ _ _ := same

variable {h : Hierarchy}

def surveyCalls (h : Hierarchy) : List Call :=
  (placeRoots h Survey.hooks.recorded h.innerRoots ⟨∅, ({}, [])⟩).state.2

def placingCalls (h : Hierarchy) : List Call :=
  (placeRoots h Placing.hooks.recorded h.innerRoots ⟨∅, ({}, [])⟩).state.2

theorem surveyCalls_eq_placingCalls (h : Hierarchy) : surveyCalls h = placingCalls h :=
  (passes_alike.placeRoots_agree h h.innerRoots ∅ rfl rfl).1

theorem next_survey_eq_next_placing (h : Hierarchy) : (survey h).next = (placing h).next := by
  have related := (passes_alike.placeRoots_agree h h.innerRoots ∅ (s := {}) (t := {}) rfl rfl).2.2
  rw [survey, placing, Hooks.placeRoots_eq_recorded Survey.hooks h h.innerRoots ∅ {} [],
    Hooks.placeRoots_eq_recorded Placing.hooks h h.innerRoots ∅ {} []]
  exact related

theorem deepest_survey_eq_deepest_placing (h : Hierarchy) :
    (survey h).deepest = (placing h).deepest := by
  rw [survey, placing, Survey.shows_deepest.view_placeRoots h h.innerRoots ∅ {},
    Placing.shows_deepest.view_placeRoots h h.innerRoots ∅ {}]
  change (Call.slots (surveyCalls h)).foldl _ none = (Call.slots (placingCalls h)).foldl _ none
  rw [surveyCalls_eq_placingCalls]

theorem treeSlots_eq_calls (h : Hierarchy) : treeSlots h = Call.slots (placingCalls h) := by
  rw [treeSlots, placing, Placing.shows_slots.view_placeRoots h h.innerRoots ∅ {},
    List.foldl_push_eq_append']
  simp [placingCalls]

-- The ring is the one that it starts with, or next to some level.
theorem foldl_eq_or_level (slots : List Slot) (ring : Nat) :
    slots.foldl (fun ring slot => max ring (slot.level + 1)) ring = ring ∨
      ∃ s ∈ slots, slots.foldl (fun ring slot => max ring (slot.level + 1)) ring = s.level + 1 := by
  induction slots generalizing ring with
  | nil => exact .inl rfl
  | cons slot rest ih =>
    rw [List.foldl_cons]
    rcases ih (max ring (slot.level + 1)) with start | ⟨s, hs, attained⟩
    · rw [start]
      rcases Nat.le_total ring (slot.level + 1) with below | above
      · exact .inr ⟨slot, List.mem_cons_self, Nat.max_eq_right below⟩
      · exact .inl (Nat.max_eq_left above)
    · exact .inr ⟨s, List.mem_cons_of_mem _ hs, attained⟩

theorem orphanLevel_eq_deepest (some : treeSlots h ≠ []) :
    ∃ s ∈ treeSlots h, (∀ t ∈ treeSlots h, t.level ≤ s.level) ∧ orphanLevel h = s.level + 1 := by
  obtain ⟨forest, after, grows⟩ := Traversal.Grows.exists_forest h h.innerRoots.toList ∅
  have beyond (t : Slot) (ht : t ∈ treeSlots h) : t.level < orphanLevel h := level_lt_orphanLevel ht
  have attained := foldl_eq_or_level (treeSlots h) 0
  rw [treeSlots_eq grows, ← orphanLevel_eq grows, ← treeSlots_eq grows] at attained
  rcases attained with center | ⟨s, hs, next⟩
  · obtain ⟨t, ht⟩ := List.exists_mem_of_ne_nil _ some
    have := beyond t ht
    omega
  · refine ⟨s, hs, fun t ht => ?_, next⟩
    have := beyond t ht
    omega

-- What is kept of the assignments has no say, so that the survey counts what the placing uses.
theorem passes_agree :
    (∀ {σ τ : Type} {a : Hooks σ} {b : Hooks τ} {R : σ → τ → Prop}, a.Alike b R →
      ∀ (h : Hierarchy) (roots visited : NodeSet) (s : σ) (t : τ), R s t →
        a.rootLevel s roots = b.rootLevel t roots →
        let left := placeRoots h a.recorded roots ⟨visited, (s, [])⟩
        let right := placeRoots h b.recorded roots ⟨visited, (t, [])⟩
        left.state.2 = right.state.2 ∧ left.visited = right.visited ∧
          placeRoots h a roots ⟨visited, s⟩ = ⟨left.visited, left.state.1⟩ ∧
          placeRoots h b roots ⟨visited, t⟩ = ⟨right.visited, right.state.1⟩) ∧
    ∀ h : Hierarchy,
      surveyCalls h = placingCalls h ∧ treeSlots h = Call.slots (surveyCalls h) ∧
        (survey h).next = (placing h).next ∧ (survey h).deepest = (placing h).deepest ∧
        (∀ s ∈ orphanSlots h, s.level = orphanLevel h) ∧
        (treeSlots h ≠ [] →
          ∃ s ∈ treeSlots h, (∀ t ∈ treeSlots h, t.level ≤ s.level) ∧
            orphanLevel h = s.level + 1) := by
  constructor
  · intro σ τ a b R alike h roots visited s t related level
    obtain ⟨calls, same, -⟩ := alike.placeRoots_agree h roots visited related level
    exact ⟨calls, same, a.placeRoots_eq_recorded h roots visited s [],
      b.placeRoots_eq_recorded h roots visited t []⟩
  · intro h
    have calls := surveyCalls_eq_placingCalls h
    refine ⟨calls, calls ▸ treeSlots_eq_calls h, next_survey_eq_next_placing h,
      deepest_survey_eq_deepest_placing h, fun s hs => (mem_orphanSlots hs).2.1, ?_⟩
    exact orphanLevel_eq_deepest

def shared : Hierarchy :=
  .ofPairs (.ofNodes [.named "a", .named "b", .named "c"])
    [(.named "a", .named "b"), (.named "a", .named "c"), (.named "b", .named "c")]
    (by simp [NodeSet.find?_ofNodes, Node.named]) (by simp [Node.named])

theorem tally_agrees_with_survey :
    Tally.hooks.Alike Survey.hooks (fun s t => s.next = t.next) ∧
      Tally.hooks.rootLevel {} (.singleton (.named "a")) =
        Survey.hooks.rootLevel {} (.singleton (.named "a")) ∧
      (placeRoots shared Tally.hooks.recorded (.singleton (.named "a")) ⟨∅, ({}, [])⟩).state.2 =
        (placeRoots shared Survey.hooks.recorded (.singleton (.named "a")) ⟨∅, ({}, [])⟩).state.2 ∧
      treeSlots shared ≠ [] ∧
      ∃ s ∈ treeSlots shared, (∀ t ∈ treeSlots shared, t.level ≤ s.level) ∧
        orphanLevel shared = s.level + 1 := by
  have alike : Tally.hooks.Alike Survey.hooks (fun s t => s.next = t.next) :=
    { offset := fun _ _ same _ => same
      advance := fun _ _ same _ => congrArg (· + 1) same
      assignLeft := fun _ _ same _ _ _ => same
      assignRight := fun _ _ same _ _ _ => same }
  have level : Tally.hooks.rootLevel {} (.singleton (.named "a")) =
      Survey.hooks.rootLevel {} (.singleton (.named "a")) := by decide
  have placed : treeSlots shared =
      [⟨.named "c", 1, 0⟩, ⟨.named "b", 1, 1⟩, ⟨.named "a", 0, 0⟩] := by cbv
  have some : treeSlots shared ≠ [] := by
    rw [placed]
    exact List.cons_ne_nil _ _
  exact ⟨alike, level,
    (passes_agree.1 alike shared (.singleton (.named "a")) ∅ {} {} rfl level).1, some,
    (passes_agree.2 shared).2.2.2.2.2 some⟩

end Layout.Radial

end DependencyAtlas
