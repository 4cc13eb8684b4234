import DependencyAtlas.Proofs.Layout.Radial
import DependencyAtlas.Proofs.Traversal.Segments

set_option autoImplicit false

namespace DependencyAtlas

open Layout (Slot)
open Traversal

namespace Traversal.Forest

theorem leaves_append (first second : Forest) :
    (first.append second).leaves = first.leaves + second.leaves := by
  induction first with
  | nil => simp
  | cons n below beside _ ih => rw [cons_append, leaves_cons, ih, leaves_cons, Nat.add_assoc]

theorem slots_append (first second : Forest) (level next : Nat) :
    (first.append second).slots level next =
      first.slots level next ++ second.slots level (next + first.leaves) := by
  induction first generalizing next with
  | nil => simp
  | cons n below beside _ ih =>
    rw [cons_append, slots_cons, ih, slots_cons, leaves_cons, List.append_assoc, List.cons_append,
      Nat.add_assoc]

theorem slots_shift (forest : Forest) (level next deeper further : Nat) :
    forest.slots (level + deeper) (next + further) =
      (forest.slots level next).map fun s => ⟨s.node, s.level + deeper, s.offset + further⟩ := by
  induction forest generalizing level next with
  | nil => rfl
  | cons n below beside ihBelow ihBeside =>
    have down : level + deeper + 1 = level + 1 + deeper := by omega
    have along : next + further + max 1 below.leaves = next + max 1 below.leaves + further := by omega
    have middle : next + further + (max 1 below.leaves - 1) / 2 =
        next + (max 1 below.leaves - 1) / 2 + further := by omega
    rw [slots_cons, slots_cons, down, along, middle, ihBelow, ihBeside, List.map_append,
      List.map_cons]

theorem mem_slots_shift {forest : Forest} {s : Slot} {next : Nat} (hs : s ∈ forest.slots 0 next)
    (deeper further : Nat) :
    ⟨s.node, s.level + deeper, s.offset + further⟩ ∈ forest.slots deeper (next + further) := by
  have shifted := forest.slots_shift 0 next deeper further
  rw [Nat.zero_add] at shifted
  rw [shifted]
  exact List.mem_map_of_mem hs

theorem exists_slot {forest : Forest} {id : String} (member : id ∈ forest.ids) (level next : Nat) :
    ∃ s ∈ forest.slots level next, s.node.id = id := by
  rw [ids, ← forest.nodes_slots level next, List.map_map] at member
  exact List.mem_map.1 member

end Traversal.Forest

variable {h : Hierarchy} {cs : List Node} {v w : NodeSet}

-- Roots in a row, with their orphans and without them: each orphan takes one offset more.
structure Rows (h : Hierarchy) (cs : List Node) (v w : NodeSet) (all trees : Forest)
    (lastAll lastTrees : NodeSet) : Prop where
  withOrphans : Grows h cs v all lastAll
  without : Grows h (cs.filter fun r => !h.isLeaf r) w trees lastTrees
  agree : SameButOrphans h lastAll lastTrees
  leaves : all.leaves = trees.leaves + (cs.filter h.isLeaf).length

namespace Rows

variable {c : Node} {tree all trees : Forest} {between other lastAll lastTrees : NodeSet}

theorem orphan (alone : c ∈ h.orphans) (fresh : c ∉ v)
    (rows : Rows h cs (v.add c) w all trees lastAll lastTrees) :
    Rows h (c :: cs) v w (.cons c .nil all) trees lastAll lastTrees := by
  have leaf := (Hierarchy.mem_orphans.1 alone).2
  have below : Grows h (orderedChildren h c (v.add c)) (v.add c) .nil (v.add c) := by
    rw [orderedChildren_of_leaf leaf]
    exact .done _
  refine ⟨.enter fresh below rows.withOrphans, ?_, rows.agree, ?_⟩
  · rw [List.filter_cons_of_neg (by simp [leaf])]
    exact rows.without
  · rw [List.filter_cons_of_pos leaf, Forest.leaves_cons, Forest.leaves_nil, List.length_cons,
      rows.leaves]
    omega

theorem inner (above : c ∈ h.innerRoots) (first : Grows h [c] v tree between)
    (again : Grows h [c] w tree other)
    (rows : Rows h cs between other all trees lastAll lastTrees) :
    Rows h (c :: cs) v w (tree.append all) (tree.append trees) lastAll lastTrees := by
  have leaf := (Hierarchy.mem_innerRoots.1 above).2
  refine ⟨first.append rows.withOrphans, ?_, rows.agree, ?_⟩
  · rw [List.filter_cons_of_pos (by simp [leaf])]
    exact again.append rows.without
  · rw [List.filter_cons_of_neg leaf, Forest.leaves_append, Forest.leaves_append, rows.leaves,
      Nat.add_assoc]

end Rows

theorem exists_rows (roots : ∀ c ∈ cs, c ∈ h.roots) (distinct : (cs.map (·.id)).Nodup)
    (same : SameButOrphans h v w) (fresh : ∀ o ∈ cs, o ∈ h.orphans → o ∉ v) :
    ∃ all trees lastAll lastTrees, Rows h cs v w all trees lastAll lastTrees := by
  induction cs generalizing v w with
  | nil => exact ⟨.nil, .nil, v, w, .done v, .done w, same, rfl⟩
  | cons c rest ih =>
    rw [List.map_cons, List.nodup_cons] at distinct
    obtain ⟨root, rootsRest⟩ := List.forall_mem_cons.1 roots
    obtain ⟨freshHere, freshRest⟩ := List.forall_mem_cons.1 fresh
    by_cases leaf : h.isLeaf c
    · have alone : c ∈ h.orphans := Hierarchy.mem_orphans.2 ⟨root, leaf⟩
      have freshAfter : ∀ o ∈ rest, o ∈ h.orphans → o ∉ v.add c := by
        intro o ho orphan known
        rcases NodeSet.mem_add.1 known with before | self
        · exact freshRest o ho orphan before
        · exact distinct.1 (List.mem_map.2 ⟨o, ho, self⟩)
      obtain ⟨all, trees, _, _, rows⟩ :=
        ih rootsRest distinct.2 (same.add_orphan alone) freshAfter
      exact ⟨_, trees, _, _, rows.orphan alone (freshHere alone)⟩
    · have inner : c ∈ h.innerRoots := Hierarchy.mem_innerRoots.2 ⟨root, leaf⟩
      obtain ⟨tree, between, first⟩ := Grows.exists_forest h [c] v
      obtain ⟨other, again, agree⟩ := first.same_but_orphans
        (fun d hd => Hierarchy.not_mem_orphans_of_inner (List.mem_singleton.1 hd ▸ inner)) same
      have freshAfter : ∀ o ∈ rest, o ∈ h.orphans → o ∉ between := fun o ho orphan =>
        first.orphan_not_mem inner orphan (freshRest o ho orphan)
      obtain ⟨all, trees, _, _, rows⟩ := ih rootsRest distinct.2 agree freshAfter
      exact ⟨_, _, _, _, rows.inner inner first again⟩

namespace Layout

def orphansBefore (h : Hierarchy) (r : Node) : Nat := (h.orphans.keep fun o => o.id < r.id).size

theorem orphansBefore_eq {earlier later : List Node} {r : Node}
    (split : h.roots.toList = earlier ++ r :: later) :
    orphansBefore h r = (earlier.filter h.isLeaf).length := by
  have before := NodeSet.filter_below split
  calc (h.orphans.keep fun o => o.id < r.id).size
      = ((h.roots.toList.filter h.isLeaf).filter fun o => o.id < r.id).length := by
        rw [← Std.ExtTreeSet.length_toList, NodeSet.toList_keep, Hierarchy.orphans,
          NodeSet.toList_keep]
    _ = ((h.roots.toList.filter fun o => o.id < r.id).filter h.isLeaf).length := by
        simp only [List.filter_filter, Bool.and_comm]
    _ = (earlier.filter h.isLeaf).length := by rw [before]

theorem innerRoots_split {earlier later : List Node} {r : Node}
    (split : h.roots.toList = earlier ++ r :: later) (inner : ¬ h.isLeaf r) :
    h.innerRoots.toList = (earlier.filter fun n => !h.isLeaf n) ++
      r :: later.filter fun n => !h.isLeaf n := by
  rw [Hierarchy.innerRoots, NodeSet.toList_keep, split, List.filter_append,
    List.filter_cons_of_pos (by simpa using inner)]

theorem inner_of_placed {r n : Node} {forest : Forest} {after : NodeSet}
    (grows : Grows h [r] v forest after) (root : r ∈ h.roots) (placed : n.id ∈ forest.ids)
    (tree : n ∉ h.orphans) : r ∈ h.innerRoots := by
  refine Hierarchy.mem_innerRoots.2 ⟨root, fun leaf => tree ?_⟩
  obtain ⟨m, hm, same⟩ := List.mem_map.1 placed
  obtain ⟨c, hc, reaches⟩ := grows.reached m hm
  rw [List.mem_singleton.1 hc] at reaches
  rw [← reaches.eq_of_leaf leaf] at same
  exact (NodeSet.mem_congr same).1 (Hierarchy.mem_orphans.2 ⟨root, leaf⟩)

-- The slots of one root's tree are among those of the whole row, after the leaves before it.
theorem exists_row_of_turn {earlier : List Node} {r : Node} {before own : Forest}
    {between after : NodeSet} (grows : Grows h earlier v before between)
    (tree : Grows h [r] between own after) (later : List Node) :
    ∃ row last, Grows h (earlier ++ r :: later) v row last ∧
      ∀ level, ∀ s ∈ own.slots level before.leaves, s ∈ row.slots level 0 := by
  obtain ⟨rest, last, growsRest⟩ := Grows.exists_forest h later after
  refine ⟨before.append (own.append rest), last, grows.append (tree.append growsRest), ?_⟩
  intro level s hs
  rw [Forest.slots_append, Forest.slots_append, Nat.zero_add]
  exact List.mem_append_right _ (List.mem_append_left _ hs)

-- A tree in both layouts: the same forest, started from other levels and other offsets.
theorem slots_of_placedFrom {r n : Node} (tree : n ∉ h.orphans)
    (placed : PlacedFrom h Tally.hooks h.roots ⟨∅, {}⟩ r n) :
    PlacedFrom h Radial.Placing.hooks h.innerRoots ⟨∅, {}⟩ r n ∧
      ∃ u : Slot, u.node.id = n.id ∧
        ⟨u.node, u.level, u.offset + orphansBefore h r⟩ ∈ Linear.slots h ∧
        ⟨u.node, u.level + Radial.rootLevel h.innerRoots.size, u.offset⟩ ∈ Radial.slots h := by
  obtain ⟨earlier, later, split, turn⟩ := placed
  have distinct := h.roots.ids_nodup
  rw [NodeSet.ids, split, List.map_append, List.nodup_append] at distinct
  have listed : ∀ c ∈ earlier ++ r :: later, c ∈ h.roots := fun c hc =>
    NodeSet.mem_of_mem_toList (split ▸ hc)
  obtain ⟨all, trees, _, _, rows⟩ :=
    exists_rows (fun c hc => listed c (List.mem_append_left _ hc)) distinct.1 (.refl ∅)
      fun o _ _ => Std.ExtTreeSet.not_mem_empty
  -- the tree of the root, in the linear layout and, from the same root, in the radial one
  obtain ⟨own, _, growsOwn⟩ := Grows.exists_forest h [r] _
  have member := (visited_turn_iff Tally.hooks _ {} rows.withOrphans growsOwn).1 turn
  have inner := inner_of_placed growsOwn (listed r (by simp)) member tree
  obtain ⟨_, growsInner, -⟩ := growsOwn.same_but_orphans
    (fun c hc => Hierarchy.not_mem_orphans_of_inner (List.mem_singleton.1 hc ▸ inner)) rows.agree
  have innerSplit := innerRoots_split split (Hierarchy.mem_innerRoots.1 inner).2
  obtain ⟨row, _, growsRow, linear⟩ := exists_row_of_turn rows.withOrphans growsOwn later
  obtain ⟨others, _, growsOthers, radial⟩ := exists_row_of_turn rows.without growsInner
    (later.filter fun c => !h.isLeaf c)
  rw [← split] at growsRow
  rw [← innerSplit] at growsOthers
  refine ⟨placedFrom_of_grows _ _ _ innerSplit rows.without growsInner member, ?_⟩
  obtain ⟨u, hu, same⟩ := Forest.exists_slot member 0 trees.leaves
  refine ⟨u, same, ?_, ?_⟩
  · have shifted := Forest.mem_slots_shift hu 0 (orphansBefore h r)
    rw [orphansBefore_eq split, ← rows.leaves] at shifted
    rw [Linear.slots_of_grows growsRow, orphansBefore_eq split]
    exact linear 0 _ shifted
  · have lifted := Forest.mem_slots_shift hu (Radial.rootLevel h.innerRoots.size) 0
    rw [Radial.slots, Radial.treeSlots_eq growsOthers]
    exact List.mem_append_left _ (radial _ _ lifted)

theorem Covers.eq_of_id {roots : NodeSet} {slots : List Slot} (covers : Covers h roots slots)
    {s t : Slot} (hs : s ∈ slots) (ht : t ∈ slots) (same : s.node.id = t.node.id) : s = t :=
  List.inj_on_of_nodup_map covers.nodup hs ht same

-- The levels differ by that of the roots, the offsets by the orphans before the root.
theorem linear_matches_radial (h : Hierarchy) :
    (∀ {α : Type} [Mul α] [Div α] [Coordinate α] (spacing : Linear.Spacing α) (ring : α)
      (id : String),
      ((Linear.positions spacing h)[id]?).isSome ↔ ((Radial.positions ring h)[id]?).isSome) ∧
    ∀ s ∈ Linear.slots h, s.node ∉ h.orphans →
      (∃ r, PlacedFrom h Tally.hooks h.roots ⟨∅, {}⟩ r s.node) ∧
      ∀ r, PlacedFrom h Tally.hooks h.roots ⟨∅, {}⟩ r s.node →
        PlacedFrom h Radial.Placing.hooks h.innerRoots ⟨∅, {}⟩ r s.node ∧
        ∀ t ∈ Radial.slots h, t.node.id = s.node.id →
          t.level = s.level + Radial.rootLevel h.innerRoots.size ∧
          s.offset = t.offset + orphansBefore h r := by
  have linear := Linear.covers_slots h
  have radial := Radial.covers_slots h
  constructor
  · intro α _ _ _ spacing ring id
    exact (linear.isSome_draw_iff (Linear.point spacing) id).trans
      (radial.isSome_draw_iff (Radial.point ring (Radial.circumference h)) id).symm
  · intro s hs tree
    constructor
    · obtain ⟨forest, after, grows⟩ := Grows.exists_forest h h.roots.toList ∅
      apply exists_placedFrom Tally.hooks h.roots ⟨∅, {}⟩ s.node Std.ExtTreeSet.not_mem_empty
      rw [placeRoots_of_grows Tally.hooks {} grows]
      refine grows.mem_after.2 (.inr ((grows.mem_ids_iff Hierarchy.closed_empty _).2 ?_))
      exact ⟨(linear.mem_iff _).1 (List.mem_map_of_mem hs), by simp⟩
    · intro r placed
      obtain ⟨inner, u, same, here, there⟩ := slots_of_placedFrom tree placed
      refine ⟨inner, fun t ht twin => ?_⟩
      rw [linear.eq_of_id hs here same.symm, radial.eq_of_id ht there (twin.trans same.symm)]
      exact ⟨rfl, rfl⟩

def grove : Hierarchy :=
  .ofPairs (.ofNodes [.named "a", .named "b", .named "c", .named "d", .named "e"])
    [(.named "b", .named "c"), (.named "d", .named "e")]
    (by simp [NodeSet.find?_ofNodes, Node.named]) (by simp [Node.named])

theorem grove_matches :
    ⟨.named "e", 1, 2⟩ ∈ Linear.slots grove ∧ ⟨.named "e", 2, 1⟩ ∈ Radial.slots grove ∧
      .named "e" ∉ grove.orphans ∧
      ∃ r, PlacedFrom grove Tally.hooks grove.roots ⟨∅, {}⟩ r (.named "e") ∧
        PlacedFrom grove Radial.Placing.hooks grove.innerRoots ⟨∅, {}⟩ r (.named "e") ∧
        2 = 1 + Radial.rootLevel grove.innerRoots.size ∧ 2 = 1 + orphansBefore grove r := by
  have linear : Linear.slots grove = [⟨.named "a", 0, 0⟩, ⟨.named "c", 1, 1⟩, ⟨.named "b", 0, 1⟩,
      ⟨.named "e", 1, 2⟩, ⟨.named "d", 0, 2⟩] := by cbv
  have radial : Radial.slots grove = [⟨.named "c", 2, 0⟩, ⟨.named "b", 1, 0⟩, ⟨.named "e", 2, 1⟩,
      ⟨.named "d", 1, 1⟩, ⟨.named "a", 3, 0⟩] := by cbv
  have here : ⟨.named "e", 1, 2⟩ ∈ Linear.slots grove := by
    rw [linear]
    decide
  have there : ⟨.named "e", 2, 1⟩ ∈ Radial.slots grove := by
    rw [radial]
    decide
  have tree : .named "e" ∉ grove.orphans := by decide +kernel
  obtain ⟨⟨r, placed⟩, each⟩ := (linear_matches_radial grove).2 _ here tree
  obtain ⟨same, matched⟩ := each r placed
  exact ⟨here, there, tree, r, placed, same, matched _ there rfl⟩

end Layout

end DependencyAtlas
