import DependencyAtlas.Proofs.Layout.Entered
import DependencyAtlas.Proofs.Layout.Passes

set_option autoImplicit false

namespace DependencyAtlas

open Layout (Slot)
open Traversal

namespace Traversal

variable {h : Hierarchy} {cs : List Node} {visited after : NodeSet} {forest : Forest}

def Span.calls (x : Span) : List Call :=
  .assign x.node x.level x.slot.offset :: if x.below.isEmpty then [.advance x.level] else []

theorem Span.slots_calls (x : Span) : Call.slots x.calls = [x.slot] := by
  unfold calls
  split <;> rfl

theorem Span.slots_flatMap_calls (spans : List Span) :
    Call.slots (spans.flatMap calls) = spans.map slot := by
  induction spans with
  | nil => rfl
  | cons x rest ih =>
    rw [List.flatMap_cons, Call.slots_append, slots_calls, ih]
    rfl

theorem Span.slot_tip {x : Span} (tip : x.below.isEmpty) : x.slot = ⟨x.node, x.level, x.first⟩ := by
  cases below : x.below with
  | nil => simp [slot, width, below]
  | cons => simp [below, Forest.isEmpty] at tip

theorem Span.offset_tip {x : Span} (tip : x.below.isEmpty) : x.slot.offset = x.first :=
  congrArg Slot.offset (slot_tip tip)

theorem Span.offset_eq_middle (x : Span) :
    x.slot.offset = (x.first + (x.first + x.width - 1)) / 2 := by
  have pos := x.width_pos
  dsimp only [slot]
  omega

-- Nodes without children that are up next take one offset each.
theorem Grows.leaf_spans {leaves rest : List Node}
    (grows : Grows h (leaves ++ rest) visited forest after) (leaf : ∀ c ∈ leaves, h.isLeaf c)
    (fresh : ∀ c ∈ leaves, c ∉ visited) (distinct : (leaves.map (·.id)).Nodup)
    (above : Option Node) (level next : Nat) :
    ∀ i, (hi : i < leaves.length) →
      ⟨above, leaves[i], .nil, level, next + i⟩ ∈ forest.spans above level next := by
  induction leaves generalizing visited forest next with
  | nil => simp
  | cons c others ih =>
    rw [List.map_cons, List.nodup_cons] at distinct
    cases grows with
    | skip known _ => exact absurd known (fresh c List.mem_cons_self)
    | enter _ below beside =>
      rw [orderedChildren_of_leaf (leaf c List.mem_cons_self)] at below
      cases below with
      | done =>
        intro i hi
        cases i with
        | zero => exact Forest.root_mem_spans ..
        | succ i =>
          have freshOthers : ∀ d ∈ others, d ∉ visited.add c := by
            intro d hd known
            rcases NodeSet.mem_add.1 known with before | same
            · exact fresh d (List.mem_cons_of_mem _ hd) before
            · exact distinct.1 (List.mem_map.2 ⟨d, hd, same⟩)
          have later := ih beside (fun d hd => leaf d (List.mem_cons_of_mem _ hd)) freshOthers
            distinct.2 (next + 1) i (by simpa using hi)
          rw [Nat.add_assoc, Nat.add_comm 1] at later
          exact Forest.beside_subset_spans _ _ _ _ _ _ later

end Traversal

namespace Hooks.Counter

variable {σ : Type} {hooks : Hooks σ} {next : σ → Nat}

theorem settleCalls_eq (counter : hooks.Counter next) (above : Option Node) (n : Node) (level : Nat)
    (below : Forest) (s done : σ) (grown : next done = next s + below.leaves) :
    settleCalls hooks n level (hooks.offset s (level + 1)) (!below.isEmpty) done =
      Span.calls ⟨above, n, below, level, next s⟩ := by
  cases below with
  | nil => simp_all [settleCalls, Span.calls, Span.slot, Span.width, Forest.isEmpty, counter.offset]
  | cons m inner beside =>
    have some := Forest.leaves_cons_pos m inner beside
    have used : next s < next done := by omega
    have middle : (next s + (next done - 1)) / 2 =
        next s + (max 1 (Forest.cons m inner beside).leaves - 1) / 2 := by omega
    simp only [settleCalls, counter.offset, Forest.isEmpty, used]
    simp [Span.calls, Span.slot, Span.width, Forest.isEmpty, middle]

theorem calls_eq (counter : hooks.Counter next) (forest : Forest) (above : Option Node) (level : Nat)
    (s : σ) : forest.calls hooks level s =
      (forest.spans above level (next s)).flatMap Span.calls := by
  induction forest generalizing above level s with
  | nil => rfl
  | cons n below beside ihBelow ihBeside =>
    have grown := counter.next_place below (level + 1) s
    rw [Forest.calls, ihBelow (some n), counter.settleCalls_eq above n level below s _ grown,
      ihBeside above, counter.next_settle n level below s _ grown, Forest.spans_cons,
      List.flatMap_append, List.flatMap_cons, List.append_assoc]

end Hooks.Counter

namespace Layout

variable {h : Hierarchy} {roots visited after : NodeSet} {forest : Forest} {σ : Type}
  {hooks : Hooks σ} {s : σ} {level start : Nat} {x y : Span}

def tipOffsets (h : Hierarchy) (hooks : Hooks σ) (roots : NodeSet) (p : Progress σ)
    (slots : List Slot) (n : Node) : Set Nat :=
  {offset | ∃ u ∈ slots, Encloses h hooks roots p n u.node ∧ Tip h hooks roots p u.node ∧
    u.offset = offset}

section Spans

variable (grows : Grows h roots.toList visited forest after)

include grows

theorem tipOffsets_eq (hx : x ∈ forest.spans none level start) :
    tipOffsets h hooks roots ⟨visited, s⟩ ((forest.spans none level start).map Span.slot) x.node =
      Set.Icc x.first (x.first + x.width - 1) := by
  rw [← Forest.tips_inside]
  ext offset
  constructor
  · intro member
    obtain ⟨u, hu, encloses, tip, rfl⟩ := member
    obtain ⟨y, hy, rfl⟩ := List.mem_map.1 hu
    obtain ⟨z, hz, same⟩ := (encloses_iff grows hx _).1 encloses
    have listed := forest.inside_subset none level start x hx hz
    rw [Forest.span_unique grows.nodes_nodup listed hy same] at hz
    have empty := (tip_iff grows hy).1 tip
    exact ⟨y, hz, empty, (Span.offset_tip empty).symm⟩
  · intro member
    obtain ⟨y, inside, empty, rfl⟩ := member
    have listed := forest.inside_subset none level start x hx inside
    exact ⟨y.slot, List.mem_map_of_mem listed, (encloses_iff grows hx _).2 ⟨y, inside, rfl⟩,
      (tip_iff grows listed).2 empty, Span.offset_tip empty⟩

theorem tipOffsets_disjoint (hx : x ∈ forest.spans none level start)
    (hy : y ∈ forest.spans none level start)
    (notIn : ¬ Encloses h hooks roots ⟨visited, s⟩ x.node y.node)
    (notAround : ¬ Encloses h hooks roots ⟨visited, s⟩ y.node x.node) :
    let slots := (forest.spans none level start).map Span.slot
    tipOffsets h hooks roots ⟨visited, s⟩ slots x.node ∩
      tipOffsets h hooks roots ⟨visited, s⟩ slots y.node = ∅ := by
  dsimp only
  rw [tipOffsets_eq grows hx, tipOffsets_eq grows hy]
  rw [encloses_iff grows hx] at notIn
  rw [encloses_iff grows hy] at notAround
  have apart := Forest.spans_apart hx hy (fun inside => notAround ⟨x, inside, rfl⟩)
    (fun inside => notIn ⟨y, inside, rfl⟩)
  have xWidth := x.width_pos
  have yWidth := y.width_pos
  refine Set.eq_empty_iff_forall_notMem.2 fun offset both => ?_
  obtain ⟨inX, inY⟩ := both
  rw [Set.mem_Icc] at inX inY
  omega

theorem leaf_slots (hx : x ∈ forest.spans none level start) {above : Option Node} {v : NodeSet}
    (entered : Entered h hooks roots ⟨visited, s⟩ above x.node v) :
    let leaves := ((h.children x.node).toList.filter fun c => !v.contains c).filter h.isLeaf
    ∀ i, (hi : i < leaves.length) →
      ⟨leaves[i], x.level + 1, x.first + i⟩ ∈ (forest.spans none level start).map Span.slot := by
  intro leaves i hi
  obtain ⟨y, hy, -, same, between, below⟩ := entered.exists_span grows level start
  rw [Forest.span_unique grows.nodes_nodup hy hx same] at below
  have leaf : ∀ c ∈ leaves, h.isLeaf c := fun c hc => (List.mem_filter.1 hc).2
  have fresh : ∀ c ∈ leaves, c ∉ v := by
    intro c hc known
    have unvisited := (List.mem_filter.1 (List.mem_filter.1 hc).1).2
    rw [Std.ExtTreeSet.contains_iff_mem.2 known] at unvisited
    cases unvisited
  have distinct : (leaves.map (·.id)).Nodup :=
    (h.children x.node).ids_nodup.sublist
      ((List.filter_sublist.trans List.filter_sublist).map _)
  have span := below.leaf_spans leaf fresh distinct (some x.node) (x.level + 1) x.first i hi
  have listed := forest.inside_subset none level start x hx (Span.mem_inside.2 (.inl span))
  exact List.mem_map.2 ⟨_, listed, Span.slot_tip rfl⟩

theorem exists_tips (level start : Nat) :
    let slots := (forest.spans none level start).map Span.slot
    ∃ tips : List Slot, tips.Sublist slots ∧
      (∀ t ∈ slots, t ∈ tips ↔ Tip h hooks roots ⟨visited, s⟩ t.node) ∧
      tips.length = forest.leaves ∧ tips.map (·.offset) = List.range' start forest.leaves ∧
      (forest.spans none level start).flatMap Span.calls = slots.flatMap fun t =>
        .assign t.node t.level t.offset :: if t ∈ tips then [.advance t.level] else [] := by
  intro slots
  let tips := ((forest.spans none level start).filter (·.below.isEmpty)).map Span.slot
  have mem_tips : ∀ x ∈ forest.spans none level start, x.slot ∈ tips ↔ x.below.isEmpty := by
    intro x hx
    rw [List.mem_map]
    constructor
    · intro tip
      obtain ⟨y, hy, same⟩ := tip
      obtain ⟨listed, empty⟩ := List.mem_filter.1 hy
      rw [← Forest.span_unique grows.nodes_nodup listed hx (congrArg Slot.node same)]
      exact empty
    · intro empty
      exact ⟨x, List.mem_filter.2 ⟨hx, empty⟩, rfl⟩
  have offsets : tips.map (·.offset) = List.range' start forest.leaves := by
    rw [← forest.first_tips none level start, List.map_map]
    exact List.map_congr_left fun x hx => Span.offset_tip (List.mem_filter.1 hx).2
  refine ⟨tips, List.filter_sublist.map _, ?_, ?_, offsets, ?_⟩
  · intro t ht
    obtain ⟨x, hx, rfl⟩ := List.mem_map.1 ht
    exact (mem_tips x hx).trans (tip_iff grows hx).symm
  · have count := congrArg List.length offsets
    rwa [List.length_map, List.length_range'] at count
  · rw [List.flatMap_map]
    refine List.flatMap_congr fun x hx => ?_
    simp only [Span.calls, mem_tips x hx]
    rfl

theorem entered_iff_slot (level start : Nat) (n : Node) :
    (∃ above v, Entered h hooks roots ⟨visited, s⟩ above n v) ↔
      ∃ t ∈ (forest.spans none level start).map Span.slot, t.node = n := by
  simp only [exists_entered_iff grows level start]
  constructor
  · intro entered
    obtain ⟨above, x, hx, -, here⟩ := entered
    exact ⟨x.slot, List.mem_map_of_mem hx, here⟩
  · intro placed
    obtain ⟨t, ht, here⟩ := placed
    obtain ⟨x, hx, rfl⟩ := List.mem_map.1 ht
    exact ⟨x.above, x, hx, rfl, here⟩

theorem above_unique {n : Node} {a b : Option Node} {v w : NodeSet}
    (first : Entered h hooks roots ⟨visited, s⟩ a n v)
    (second : Entered h hooks roots ⟨visited, s⟩ b n w) : a = b := by
  obtain ⟨x, hx, rfl, here, -⟩ := first.exists_span grows 0 0
  obtain ⟨y, hy, rfl, there, -⟩ := second.exists_span grows 0 0
  rw [Forest.span_unique grows.nodes_nodup hx hy (here.trans there.symm)]

theorem ids_spans (level start : Nat) :
    (((forest.spans none level start).map Span.slot).map (·.node.id)).Nodup := by
  have nodup := grows.ids_nodup
  rw [Forest.ids, ← forest.node_spans none level start, List.map_map] at nodup
  rw [List.map_map]
  exact nodup

end Spans

-- The tips take the offsets one by one, and what encloses them stands in the middle of its range.
theorem ranges_nested {next : σ → Nat} (counter : hooks.Counter next) (h : Hierarchy)
    (roots visited : NodeSet) (s : σ) :
    let p : Progress σ := ⟨visited, s⟩
    let ran := placeRoots h hooks.recorded roots ⟨visited, (s, [])⟩
    let slots := Call.slots ran.state.2
    placeRoots h hooks roots p = ⟨ran.visited, ran.state.1⟩ ∧
      (slots.map (·.node.id)).Nodup ∧
      (∀ n, (∃ above v, Entered h hooks roots p above n v) ↔ ∃ t ∈ slots, t.node = n) ∧
      (∀ n a b v w, Entered h hooks roots p a n v → Entered h hooks roots p b n w → a = b) ∧
      (∃ tips : List Slot, tips.Sublist slots ∧
        (∀ t ∈ slots, t ∈ tips ↔ Tip h hooks roots p t.node) ∧
        tips.map (·.offset) = List.range' (next s) tips.length ∧
        next ran.state.1 = next s + tips.length ∧
        ran.state.2 = slots.flatMap fun t =>
          .assign t.node t.level t.offset :: if t ∈ tips then [.advance t.level] else []) ∧
      (∀ t ∈ slots, ∃ l r, l ≤ r ∧ tipOffsets h hooks roots p slots t.node = Set.Icc l r ∧
        t.offset = (l + r) / 2 ∧
        ∀ above v, Entered h hooks roots p above t.node v →
          let leaves := ((h.children t.node).toList.filter fun c => !v.contains c).filter h.isLeaf
          ∀ i, (hi : i < leaves.length) → ⟨leaves[i], t.level + 1, l + i⟩ ∈ slots) ∧
      ∀ t ∈ slots, ∀ u ∈ slots,
        ¬ Encloses h hooks roots p t.node u.node → ¬ Encloses h hooks roots p u.node t.node →
        tipOffsets h hooks roots p slots t.node ∩ tipOffsets h hooks roots p slots u.node = ∅ := by
  intro p ran slots
  obtain ⟨forest, after, grows⟩ := Grows.exists_forest h roots.toList visited
  let level := hooks.rootLevel s roots
  let spans := forest.spans none level (next s)
  have done : ran = ⟨after, forest.place hooks level s, spans.flatMap Span.calls⟩ := by
    rw [← counter.calls_eq forest none level s]
    exact placeRoots_recorded hooks s [] grows
  have told : slots = spans.map Span.slot := by
    rw [← Span.slots_flatMap_calls]
    exact congrArg (fun p => Call.slots p.state.2) done
  rw [told, done]
  refine ⟨placeRoots_of_grows hooks s grows, ids_spans grows level (next s),
    entered_iff_slot grows level (next s), fun n a b v w => above_unique grows, ?_, ?_, ?_⟩
  · obtain ⟨tips, sublist, tip, count, offsets, calls⟩ := exists_tips grows level (next s)
    refine ⟨tips, sublist, tip, count ▸ offsets, ?_, calls⟩
    rw [count]
    exact counter.next_place forest level s
  · intro t ht
    obtain ⟨x, hx, rfl⟩ := List.mem_map.1 ht
    have pos := x.width_pos
    exact ⟨x.first, x.first + x.width - 1, by omega, tipOffsets_eq grows hx, x.offset_eq_middle,
      fun above v entered => leaf_slots grows hx entered⟩
  · intro t ht u hu notIn notAround
    obtain ⟨x, hx, rfl⟩ := List.mem_map.1 ht
    obtain ⟨y, hy, rfl⟩ := List.mem_map.1 hu
    exact tipOffsets_disjoint grows hx hy notIn notAround

def fork : Hierarchy :=
  .ofPairs (.ofNodes [.named "r", .named "a", .named "x", .named "y", .named "z"])
    [(.named "r", .named "a"), (.named "r", .named "z"), (.named "a", .named "x"),
      (.named "a", .named "y")]
    (by simp [NodeSet.find?_ofNodes, Node.named]) (by simp [Node.named])

def forkSlots : List Slot :=
  Call.slots (placeRoots fork Tally.hooks.recorded fork.roots ⟨∅, ({}, [])⟩).state.2

theorem fork_ranges_nested :
    Tally.hooks.Counter Tally.next ∧
      forkSlots = [⟨.named "z", 1, 0⟩, ⟨.named "x", 2, 1⟩, ⟨.named "y", 2, 2⟩, ⟨.named "a", 1, 1⟩,
        ⟨.named "r", 0, 1⟩] ∧
      ∃ l r, l ≤ r ∧
        tipOffsets fork Tally.hooks fork.roots ⟨∅, {}⟩ forkSlots (.named "a") = Set.Icc l r ∧
        1 = (l + r) / 2 := by
  have placed : forkSlots = [⟨.named "z", 1, 0⟩, ⟨.named "x", 2, 1⟩, ⟨.named "y", 2, 2⟩,
      ⟨.named "a", 1, 1⟩, ⟨.named "r", 0, 1⟩] := by cbv
  have listed : ⟨.named "a", 1, 1⟩ ∈ forkSlots := by
    rw [placed]
    decide
  obtain ⟨l, r, some, range, middle, -⟩ :=
    (ranges_nested Tally.counter fork fork.roots ∅ {}).2.2.2.2.2.1 _ listed
  exact ⟨Tally.counter, placed, l, r, some, range, middle⟩

end Layout

end DependencyAtlas
