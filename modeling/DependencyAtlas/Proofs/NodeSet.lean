import DependencyAtlas.Node

set_option autoImplicit false

namespace DependencyAtlas.NodeSet

theorem Within.mem {s t : NodeSet} (within : s.Within t) {n : Node} (hn : n ∈ s) : n ∈ t :=
  mem_iff.2 (within n.id (mem_iff.1 hn))

theorem mem_congr {s : NodeSet} {m n : Node} (same : m.id = n.id) : m ∈ s ↔ n ∈ s := by
  rw [mem_iff, mem_iff, same]

theorem mem_of_mem_toList {s : NodeSet} {n : Node} (hn : n ∈ s.toList) : n ∈ s := by
  rw [mem_iff, mem_toList.1 hn, Option.isSome_some]

theorem exists_mem_toList {s : NodeSet} {n : Node} (hn : n ∈ s) : ∃ m ∈ s.toList, m.id = n.id := by
  obtain ⟨m, found⟩ := Option.isSome_iff_exists.1 (mem_iff.1 hn)
  have same := id_of_find? found
  exact ⟨m, mem_toList.2 (same ▸ found), same⟩

theorem ext_toList {s t : NodeSet} (same : ∀ n, n ∈ s.toList ↔ n ∈ t.toList) : s = t := by
  refine ext fun id => Option.ext fun n => ?_
  by_cases here : n.id = id
  · rw [← here, ← mem_toList, ← mem_toList, same]
  · constructor
    · exact fun found => absurd (id_of_find? found) here
    · exact fun found => absurd (id_of_find? found) here

theorem eq_of_mem_toList {s : NodeSet} {m n : Node} (hm : m ∈ s.toList) (hn : n ∈ s.toList)
    (same : m.id = n.id) : m = n :=
  Option.some.inj ((mem_toList.1 hm).symm.trans (same ▸ mem_toList.1 hn))

theorem mem_toList_singleton {m n : Node} : m ∈ (singleton n).toList ↔ m = n := by
  rw [mem_toList, find?_singleton]
  constructor
  · intro found
    split at found
    · exact (Option.some.inj found).symm
    · cases found
  · rintro rfl
    exact if_pos rfl

theorem mem_singleton {m n : Node} : m ∈ singleton n ↔ m.id = n.id := by
  rw [mem_iff, find?_singleton]
  by_cases same : n.id = m.id
  · simp [same]
  · simp [same, Ne.symm same]

theorem singleton_within {n : Node} {t : NodeSet} : (singleton n).Within t ↔ n ∈ t := by
  constructor
  · exact fun within => within.mem (mem_singleton.2 rfl)
  · intro present id given
    rw [find?_singleton] at given
    split at given
    · next same => exact same ▸ mem_iff.1 present
    · cases given

theorem mem_toList_minus {s t : NodeSet} {n : Node} :
    n ∈ (s.minus t).toList ↔ n ∈ s.toList ∧ n ∉ t := by
  rw [mem_toList, mem_toList, mem_iff, find?_minus]
  split
  · next present => simp [present]
  · next absent => simp [absent]

theorem mem_toList_keep {s : NodeSet} {p : Node → Bool} {n : Node} :
    n ∈ (s.keep p).toList ↔ n ∈ s.toList ∧ p n := by
  rw [mem_toList, mem_toList, find?_keep, Option.filter_eq_some_iff]

theorem keep_within (s : NodeSet) (p : Node → Bool) : (s.keep p).Within s := by
  intro id present
  obtain ⟨n, found⟩ := Option.isSome_iff_exists.1 present
  rw [find?_keep, Option.filter_eq_some_iff] at found
  rw [found.1, Option.isSome_some]

theorem toList_keep (s : NodeSet) (p : Node → Bool) : (s.keep p).toList = s.toList.filter p :=
  Std.ExtTreeSet.toList_filter

theorem mem_keep {s : NodeSet} {p : Node → Bool} {n : Node}
    (respects : ∀ m : Node, m.id = n.id → p m = p n) : n ∈ s.keep p ↔ n ∈ s ∧ p n := by
  rw [mem_iff, mem_iff, find?_keep]
  cases found : s.find? n.id with
  | none => simp
  | some m => simp [Option.filter, respects m (id_of_find? found)]

theorem ids_nodup (s : NodeSet) : s.ids.Nodup := by
  refine s.ids_increasing.imp fun {a b} less same => ?_
  simp [same] at less

-- The ids increase, so that those below a member are the ones listed before it.
theorem filter_below {s : NodeSet} {earlier later : List Node} {n : Node}
    (split : s.toList = earlier ++ n :: later) :
    s.toList.filter (fun m => m.id < n.id) = earlier := by
  have increasing : s.toList.Pairwise fun a b => a.id < b.id :=
    (List.pairwise_map.1 s.ids_increasing).imp compareOfLessAndEq_eq_lt.1
  rw [split, List.pairwise_append, List.pairwise_cons] at increasing
  obtain ⟨-, ⟨above, -⟩, below⟩ := increasing
  have front : earlier.filter (fun m => m.id < n.id) = earlier :=
    List.filter_eq_self.2 fun m hm => decide_eq_true (below m hm n List.mem_cons_self)
  have back : (n :: later).filter (fun m => m.id < n.id) = [] := by
    refine List.filter_eq_nil_iff.2 fun m hm less => ?_
    have less : m.id < n.id := of_decide_eq_true less
    rcases List.mem_cons.1 hm with here | after
    · rw [here] at less
      exact String.lt_irrefl _ less
    · exact String.lt_irrefl _ (String.lt_trans less (above m after))
  rw [split, List.filter_append, front, back, List.append_nil]

theorem isSome_find?_add (s : NodeSet) (n : Node) (id : String) :
    ((s.add n).find? id).isSome ↔ (s.find? id).isSome ∨ id = n.id := by
  rw [find?_add]
  by_cases same : n.id = id
  · simp [same]
  · simp [same, Ne.symm same]

theorem mem_add {s : NodeSet} {m n : Node} : m ∈ s.add n ↔ m ∈ s ∨ m.id = n.id := by
  rw [mem_iff, mem_iff, isSome_find?_add]

theorem within_add (s : NodeSet) (n : Node) : s.Within (s.add n) :=
  fun id present => (isSome_find?_add s n id).2 (.inl present)

theorem mem_add_self (s : NodeSet) (n : Node) : n ∈ s.add n :=
  mem_iff.2 ((isSome_find?_add s n n.id).2 (.inr rfl))

theorem within_iff_minus_size {s t : NodeSet} : s.Within t ↔ (s.minus t).size = 0 := by
  rw [← Std.ExtTreeSet.eq_empty_iff_size_eq_zero]
  constructor
  · intro within
    refine ext fun id => ?_
    rw [find?_minus, find?_empty]
    by_cases h : (t.find? id).isSome
    · rw [if_pos h]
    · rw [if_neg h]
      exact Option.not_isSome_iff_eq_none.1 fun present => h (within id present)
  · intro none id present
    have h := find?_minus s t id
    rw [none, find?_empty] at h
    by_cases kept : (t.find? id).isSome
    · exact kept
    · rw [if_neg kept] at h
      rw [← h] at present
      cases present

theorem isEmpty_minus_iff {s t : NodeSet} : (s.minus t).isEmpty ↔ s.Within t := by
  rw [within_iff_minus_size, Std.ExtTreeSet.isEmpty_eq_size_beq_zero, beq_iff_eq]

theorem Within.minus {s t : NodeSet} (within : s.Within t) (u : NodeSet) :
    (u.minus t).Within (u.minus s) := by
  intro id present
  rw [find?_minus] at present ⊢
  by_cases h : (s.find? id).isSome
  · rw [if_pos (within id h)] at present
    cases present
  · rw [if_neg h]
    split at present
    · cases present
    · exact present

theorem size_lt_size_join_iff {s t : NodeSet} : s.size < (s.join t).size ↔ ¬ t.Within s := by
  have total : t.size + s.size = (s.join t).size + (t ∩ s).size :=
    Std.ExtTreeSet.size_add_size_eq_size_union_add_size_inter
  have split : (t.minus s).size + (t ∩ s).size = t.size :=
    Std.ExtTreeSet.size_diff_add_size_inter_eq_size_left
  rw [within_iff_minus_size]
  omega

end DependencyAtlas.NodeSet
