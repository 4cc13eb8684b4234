import DependencyAtlas.Proofs.Traversal.Coverage

set_option autoImplicit false

namespace DependencyAtlas.Traversal

section

namespace Forest

def append : Forest → Forest → Forest
  | nil, others => others
  | cons n below beside, others => cons n below (beside.append others)

@[simp] theorem nil_append (others : Forest) : nil.append others = others := rfl

@[simp] theorem cons_append (n : Node) (below beside others : Forest) :
    (cons n below beside).append others = cons n below (beside.append others) := rfl

end Forest

variable {h : Hierarchy} {cs ds : List Node} {visited between after : NodeSet}
  {first second : Forest} {σ : Type}

theorem Grows.append (grows : Grows h cs visited first between)
    (others : Grows h ds between second after) :
    Grows h (cs ++ ds) visited (first.append second) after := by
  induction grows with
  | done => exact others
  | skip hv _ ih => exact .skip hv (ih others)
  | enter fresh below _ _ ih => exact .enter fresh below (ih others)

-- Not visited when the turn comes to `r`, and visited when the subtree of `r` is done.
def PlacedFrom (h : Hierarchy) (hooks : Hooks σ) (roots : NodeSet) (p : Progress σ) (r n : Node) :
    Prop :=
  ∃ earlier later, roots.toList = earlier ++ r :: later ∧
    let place := placeSubtree h hooks (hooks.rootLevel p.state roots)
    n ∉ (earlier.foldl place p).visited ∧ n ∈ (place (earlier.foldl place p) r).visited

-- Along a row of nodes, there is one whose turn makes the difference.
theorem exists_turn (place : Progress σ → Node → Progress σ) (p : Progress σ) (n : Node)
    (before : n ∉ p.visited) (last : n ∈ (cs.foldl place p).visited) :
    ∃ earlier r later, cs = earlier ++ r :: later ∧ n ∉ (earlier.foldl place p).visited ∧
      n ∈ (place (earlier.foldl place p) r).visited := by
  induction cs generalizing p with
  | nil => exact absurd last before
  | cons c rest ih =>
    by_cases here : n ∈ (place p c).visited
    · exact ⟨[], c, rest, rfl, before, here⟩
    · obtain ⟨earlier, r, later, split, fresh, placed⟩ := ih (place p c) here last
      exact ⟨c :: earlier, r, later, by rw [split, List.cons_append], fresh, placed⟩

theorem exists_placedFrom (hooks : Hooks σ) (roots : NodeSet) (p : Progress σ) (n : Node)
    (before : n ∉ p.visited) (placed : n ∈ (placeRoots h hooks roots p).visited) :
    ∃ r, PlacedFrom h hooks roots p r n := by
  obtain ⟨earlier, r, later, split, turn⟩ := exists_turn _ p n before placed
  exact ⟨r, earlier, later, split, turn⟩

theorem visited_turn_iff (hooks : Hooks σ) (level : Nat) (s : σ) {earlier : List Node} {r n : Node}
    (grows : Grows h earlier visited first between) (tree : Grows h [r] between second after) :
    n ∉ (earlier.foldl (placeSubtree h hooks level) ⟨visited, s⟩).visited ∧
      n ∈ (placeSubtree h hooks level (earlier.foldl (placeSubtree h hooks level) ⟨visited, s⟩)
        r).visited ↔ n.id ∈ second.ids := by
  have placed : ∀ t, placeSubtree h hooks level ⟨between, t⟩ r =
      ⟨after, second.place hooks level t⟩ := fun t => foldl_placeSubtree_of_grows hooks level t tree
  rw [foldl_placeSubtree_of_grows hooks level s grows, placed]
  dsimp only
  rw [tree.mem_after]
  constructor
  · intro turn
    exact turn.2.resolve_left turn.1
  · intro member
    refine ⟨fun known => ?_, .inr member⟩
    exact tree.fresh n.id member (NodeSet.mem_iff.1 known)

theorem placedFrom_of_grows (hooks : Hooks σ) (roots : NodeSet) (s : σ) {earlier later : List Node}
    {r n : Node} (split : roots.toList = earlier ++ r :: later)
    (grows : Grows h earlier visited first between) (tree : Grows h [r] between second after)
    (member : n.id ∈ second.ids) : PlacedFrom h hooks roots ⟨visited, s⟩ r n :=
  ⟨earlier, later, split, (visited_turn_iff hooks _ s grows tree).2 member⟩

end

variable {h : Hierarchy} {cs : List Node} {v w : NodeSet}

def SameButOrphans (h : Hierarchy) (v w : NodeSet) : Prop :=
  ∀ n, n ∉ h.orphans → (n ∈ v ↔ n ∈ w)

namespace SameButOrphans

theorem refl (v : NodeSet) : SameButOrphans h v v := fun _ _ => Iff.rfl

theorem add (same : SameButOrphans h v w) (n : Node) : SameButOrphans h (v.add n) (w.add n) := by
  intro m tree
  rw [NodeSet.mem_add, NodeSet.mem_add, same m tree]

theorem add_orphan (same : SameButOrphans h v w) {o : Node} (orphan : o ∈ h.orphans) :
    SameButOrphans h (v.add o) w := by
  intro m tree
  have other : m.id ≠ o.id := fun eq => tree ((NodeSet.mem_congr eq).2 orphan)
  rw [NodeSet.mem_add, or_iff_left other, same m tree]

theorem orderedChildren_eq (same : SameButOrphans h v w) (n : Node) :
    orderedChildren h n v = orderedChildren h n w := by
  have fresh : ((h.children n).toList.filter fun c => !v.contains c) =
      (h.children n).toList.filter fun c => !w.contains c := by
    refine List.filter_congr fun c child => ?_
    have tree : c ∉ h.orphans := fun orphan =>
      Hierarchy.not_mem_roots_of_child child (Hierarchy.mem_orphans.1 orphan).1
    rw [Bool.eq_iff_iff, Bool.not_eq_true', Bool.not_eq_true', ← Bool.not_eq_true,
      ← Bool.not_eq_true, Std.ExtTreeSet.contains_iff_mem, Std.ExtTreeSet.contains_iff_mem,
      same c tree]
  rw [orderedChildren, orderedChildren, fresh]

end SameButOrphans

theorem Grows.same_but_orphans {after : NodeSet} {forest : Forest}
    (grows : Grows h cs v forest after) (trees : ∀ c ∈ cs, c ∉ h.orphans)
    (same : SameButOrphans h v w) :
    ∃ last, Grows h cs w forest last ∧ SameButOrphans h after last := by
  induction grows generalizing w with
  | done => exact ⟨w, .done w, same⟩
  | @skip c _ _ _ _ hv _ ih =>
    obtain ⟨last, others, agree⟩ := ih (fun d hd => trees d (List.mem_cons_of_mem _ hd)) same
    exact ⟨last, .skip ((same c (trees c List.mem_cons_self)).1 hv) others, agree⟩
  | @enter c _ visited _ _ _ _ fresh _ _ ihBelow ihBeside =>
    have entered := same.add c
    have below : ∀ d ∈ orderedChildren h c (visited.add c), d ∉ h.orphans := by
      intro d hd orphan
      exact Hierarchy.not_mem_roots_of_child (mem_orderedChildren.1 hd).1
        (Hierarchy.mem_orphans.1 orphan).1
    obtain ⟨between, growsBelow, agree⟩ := ihBelow below entered
    obtain ⟨last, growsBeside, agree⟩ :=
      ihBeside (fun d hd => trees d (List.mem_cons_of_mem _ hd)) agree
    rw [entered.orderedChildren_eq c] at growsBelow
    exact ⟨last, .enter (fun hw => fresh ((same c (trees c List.mem_cons_self)).2 hw)) growsBelow
      growsBeside, agree⟩

theorem orderedChildren_of_leaf {n : Node} (leaf : h.isLeaf n) (visited : NodeSet) :
    orderedChildren h n visited = [] := by
  refine List.eq_nil_iff_forall_not_mem.2 fun c hc => ?_
  exact Hierarchy.not_mem_children_of_leaf leaf c (mem_orderedChildren.1 hc).1

theorem Grows.orphan_not_mem {c o : Node} {after : NodeSet} {forest : Forest}
    (grows : Grows h [c] v forest after) (inner : c ∈ h.innerRoots) (orphan : o ∈ h.orphans)
    (fresh : o ∉ v) : o ∉ after := by
  intro visited
  rcases grows.mem_after.1 visited with known | placed
  · exact fresh known
  · obtain ⟨n, hn, same⟩ := List.mem_map.1 placed
    obtain ⟨d, hd, reaches⟩ := grows.reached n hn
    rw [List.mem_singleton.1 hd] at reaches
    exact reaches.not_mem_orphans inner ((NodeSet.mem_congr same).2 orphan)

end DependencyAtlas.Traversal
