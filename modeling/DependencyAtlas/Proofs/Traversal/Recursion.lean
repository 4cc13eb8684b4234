import DependencyAtlas.Proofs.Traversal.Calls

set_option autoImplicit false

namespace DependencyAtlas.Traversal

def allChildren (h : Hierarchy) (n : Node) : List Node :=
  (h.children n).toList.filter h.isLeaf ++ (h.children n).toList.filter fun c => !h.isLeaf c

theorem mem_allChildren {h : Hierarchy} {n c : Node} :
    c ∈ allChildren h n ↔ c ∈ (h.children n).toList := by
  simp only [allChildren, List.mem_append, List.mem_filter]
  cases h.isLeaf c <;> simp

theorem mem_nodes_of_mem_allChildren {h : Hierarchy} {n c : Node} (hc : c ∈ allChildren h n) :
    c ∈ h.nodes := by
  have child := NodeSet.mem_toList.1 (mem_allChildren.1 hc)
  rw [Hierarchy.children] at child
  exact NodeSet.mem_iff.2 (h.children_within n.id c.id (by rw [child, Option.isSome_some]))

theorem unvisited_add_le {h : Hierarchy} {visited : NodeSet} {n : Node} :
    unvisited h (visited.add n) ≤ unvisited h visited := by
  apply NodeSet.Within.size_le
  intro id
  grind [NodeSet.find?_minus, NodeSet.find?_add]

variable {σ : Type}

structure Visit (h : Hierarchy) (before : Progress σ) where
  after : Progress σ
  placed : Bool
  le : unvisited h after.visited ≤ unvisited h before.visited

mutual

def visit (h : Hierarchy) (hooks : Hooks σ) (n : Node) (level : Nat) (p : Progress σ) :
    Visit h p :=
  if hv : n ∈ p.visited then ⟨p, false, Nat.le_refl _⟩
  else
    let entered := { p with visited := p.visited.add n }
    let left := hooks.offset p.state (level + 1)
    let below := visitAll h hooks (allChildren h n) (fun _ => mem_nodes_of_mem_allChildren)
      (level + 1) entered
    let state := settle hooks n level left below.placed below.after.state
    ⟨{ below.after with state := state }, true, Nat.le_trans below.le unvisited_add_le⟩
termination_by (unvisited h p.visited + if n ∈ h.nodes then 0 else 1, 0)
decreasing_by
  refine .left _ _ ?_
  by_cases hn : n ∈ h.nodes
  · simpa [hn] using unvisited_add_lt hn hv
  · simpa [hn] using Nat.lt_succ_of_le unvisited_add_le

def visitAll (h : Hierarchy) (hooks : Hooks σ) (cs : List Node) (within : ∀ c ∈ cs, c ∈ h.nodes)
    (level : Nat) (p : Progress σ) : Visit h p :=
  match cs with
  | [] => ⟨p, false, Nat.le_refl _⟩
  | c :: rest =>
    let first := visit h hooks c level p
    let others := visitAll h hooks rest (fun d hd => within d (List.mem_cons_of_mem c hd)) level
      first.after
    ⟨others.after, first.placed || others.placed, Nat.le_trans others.le first.le⟩
termination_by (unvisited h p.visited, cs.length + 1)
decreasing_by
  · rw [if_pos (within c List.mem_cons_self)]
    exact .right _ (by simp)
  · rcases Nat.lt_or_eq_of_le first.le with less | same
    · exact .left _ _ less
    · rw [same]
      exact .right _ (by simp)

end

variable {h : Hierarchy} {cs : List Node} {visited after : NodeSet} {forest : Forest}

theorem orderedChildren_eq_filter (h : Hierarchy) (n : Node) (visited : NodeSet) :
    orderedChildren h n visited = (allChildren h n).filter fun c => !visited.contains c := by
  simp only [orderedChildren, allChildren, List.filter_append, List.filter_filter, Bool.and_comm]

-- What has been visited is never forgotten, so that nodes may be left out in advance.
theorem Grows.of_filter {seen : NodeSet} (within : seen.Within visited)
    (grows : Grows h (cs.filter fun c => !seen.contains c) visited forest after) :
    Grows h cs visited forest after := by
  induction cs generalizing visited forest with
  | nil => exact grows
  | cons c rest ih =>
    by_cases known : seen.contains c
    · rw [List.filter_cons_of_neg (by simp [known])] at grows
      exact .skip (within.mem (Std.ExtTreeSet.contains_iff_mem.1 known)) (ih within grows)
    · rw [List.filter_cons_of_pos (by simp [known])] at grows
      cases grows with
      | skip hv others => exact .skip hv (ih within others)
      | enter fresh below beside =>
        have later := (within.trans (NodeSet.within_add _ c)).trans below.within
        exact .enter fresh below (ih later beside)

theorem visit_of_mem (hooks : Hooks σ) {n : Node} (level : Nat) (s : σ) (hv : n ∈ visited) :
    (visit h hooks n level ⟨visited, s⟩).after = ⟨visited, s⟩ ∧
      (visit h hooks n level ⟨visited, s⟩).placed = false := by
  rw [visit]
  simp [hv]

theorem visit_of_not_mem (hooks : Hooks σ) {n : Node} (level : Nat) (s : σ) (hv : n ∉ visited) :
    let below := visitAll h hooks (allChildren h n) (fun _ => mem_nodes_of_mem_allChildren)
      (level + 1) ⟨visited.add n, s⟩
    (visit h hooks n level ⟨visited, s⟩).after = ⟨below.after.visited,
        settle hooks n level (hooks.offset s (level + 1)) below.placed below.after.state⟩ ∧
      (visit h hooks n level ⟨visited, s⟩).placed = true := by
  rw [visit]
  simp [hv]

theorem visitAll_cons (hooks : Hooks σ) {c : Node} (inside : ∀ d ∈ c :: cs, d ∈ h.nodes)
    (level : Nat) (p : Progress σ) :
    let first := visit h hooks c level p
    let others := visitAll h hooks cs (fun d hd => inside d (List.mem_cons_of_mem c hd)) level
      first.after
    (visitAll h hooks (c :: cs) inside level p).after = others.after ∧
      (visitAll h hooks (c :: cs) inside level p).placed = (first.placed || others.placed) := by
  rw [visitAll]
  exact ⟨rfl, rfl⟩

theorem visitAll_of_mem (hooks : Hooks σ) {c : Node} (inside : ∀ d ∈ c :: cs, d ∈ h.nodes)
    (level : Nat) (s : σ) (hv : c ∈ visited) :
    let others := visitAll h hooks cs (fun d hd => inside d (List.mem_cons_of_mem c hd)) level
      ⟨visited, s⟩
    (visitAll h hooks (c :: cs) inside level ⟨visited, s⟩).after = others.after ∧
      (visitAll h hooks (c :: cs) inside level ⟨visited, s⟩).placed = others.placed := by
  obtain ⟨last, any⟩ := visitAll_cons hooks inside level ⟨visited, s⟩
  obtain ⟨same, unplaced⟩ := visit_of_mem (h := h) hooks level s hv
  rw [last, any, same, unplaced, Bool.false_or]
  exact ⟨rfl, rfl⟩

-- The induction is on the forest, as the children that the recursion goes through are more than
-- those from which the forest grows; what they add are nodes in a row to pass over.
theorem visitAll_of_grows (hooks : Hooks σ) (inside : ∀ c ∈ cs, c ∈ h.nodes) (level : Nat) (s : σ)
    (grows : Grows h cs visited forest after) :
    (visitAll h hooks cs inside level ⟨visited, s⟩).after = ⟨after, forest.place hooks level s⟩ ∧
      (visitAll h hooks cs inside level ⟨visited, s⟩).placed = !forest.isEmpty := by
  induction forest generalizing cs visited after level s with
  | nil =>
    induction cs with
    | nil =>
      cases grows
      rw [visitAll]
      exact ⟨rfl, rfl⟩
    | cons c rest ih =>
      cases grows with
      | skip hv others =>
        obtain ⟨last, any⟩ := visitAll_of_mem hooks inside level s hv
        rw [last, any]
        exact ih _ others
  | cons n below beside ihBelow ihBeside =>
    induction cs with
    | nil => cases grows
    | cons c rest ih =>
      cases grows with
      | skip hv others =>
        obtain ⟨last, any⟩ := visitAll_of_mem hooks inside level s hv
        rw [last, any]
        exact ih _ others
      | enter fresh growsBelow growsBeside =>
        rw [orderedChildren_eq_filter] at growsBelow
        obtain ⟨done, some⟩ := ihBelow (fun _ => mem_nodes_of_mem_allChildren) (level + 1) s
          (.of_filter (.refl _) growsBelow)
        obtain ⟨settled, placed⟩ := visit_of_not_mem (h := h) hooks level s fresh
        obtain ⟨others, -⟩ := ihBeside (fun d hd => inside d (List.mem_cons_of_mem _ hd)) level
          (settle hooks n level (hooks.offset s (level + 1)) (!below.isEmpty)
            (below.place hooks (level + 1) s)) growsBeside
        obtain ⟨last, any⟩ := visitAll_cons hooks inside level ⟨visited, s⟩
        rw [last, any, placed, settled, done, some, others]
        exact ⟨rfl, rfl⟩

theorem visit_of_grows (hooks : Hooks σ) {root : Node} (level : Nat) (s : σ)
    (grows : Grows h [root] visited forest after) :
    (visit h hooks root level ⟨visited, s⟩).after = ⟨after, forest.place hooks level s⟩ := by
  cases grows with
  | skip hv others =>
    cases others
    exact (visit_of_mem hooks level s hv).1
  | enter fresh below beside =>
    cases beside
    rw [orderedChildren_eq_filter] at below
    obtain ⟨done, some⟩ := visitAll_of_grows hooks (fun _ => mem_nodes_of_mem_allChildren)
      (level + 1) s (.of_filter (.refl _) below)
    rw [(visit_of_not_mem hooks level s fresh).1, done, some]
    rfl

theorem placeSubtree_recorded (hooks : Hooks σ) (level : Nat) (root : Node) (s : σ)
    (past : List Call) (grows : Grows h [root] visited forest after) :
    placeSubtree h hooks.recorded level ⟨visited, (s, past)⟩ root =
      ⟨after, forest.place hooks level s, past ++ forest.calls hooks level s⟩ := by
  have placed := foldl_placeSubtree_of_grows hooks.recorded level (s, past) grows
  rw [Forest.place_recorded] at placed
  exact placed

theorem settle_eq (hooks : Hooks σ) (n : Node) (level left : Nat) (placed : Bool) (s : σ) :
    let right := hooks.offset s (level + 1)
    settle hooks n level left placed s =
      if placed ∧ left < right then hooks.assign s n level ((left + right - 1) / 2)
      else hooks.advance (hooks.assign s n level (hooks.offset s level)) level := by
  simp only [settle, Bool.and_eq_true, decide_eq_true_eq]
  split
  · next used => rw [Nat.add_sub_assoc (Nat.one_le_of_lt used.2)]
  · rfl

-- The stack places what the plain recursion visits, by the same calls.
theorem placeSubtree_eq_visit (h : Hierarchy) (hooks : Hooks σ) (root : Node) (level : Nat)
    (p : Progress σ) :
    let told := placeSubtree h hooks.recorded level ⟨p.visited, (p.state, [])⟩ root
    told = (visit h hooks.recorded root level ⟨p.visited, (p.state, [])⟩).after ∧
      placeSubtree h hooks level p root = ⟨told.visited, told.state.1⟩ ∧
      placeSubtree h hooks level p root = (visit h hooks root level p).after ∧
      (visit h hooks root level p).after =
        if root ∈ p.visited then p
        else
          let below := visitAll h hooks (allChildren h root) (fun _ => mem_nodes_of_mem_allChildren)
            (level + 1) { p with visited := p.visited.add root }
          let s := below.after.state
          let left := hooks.offset p.state (level + 1)
          let right := hooks.offset s (level + 1)
          { below.after with state :=
              if below.placed ∧ left < right then hooks.assign s root level ((left + right - 1) / 2)
              else hooks.advance (hooks.assign s root level (hooks.offset s level)) level } := by
  obtain ⟨visited, s⟩ := p
  obtain ⟨forest, after, grows⟩ := Grows.exists_forest h [root] visited
  have placed : placeSubtree h hooks level ⟨visited, s⟩ root =
      ⟨after, forest.place hooks level s⟩ := foldl_placeSubtree_of_grows hooks level s grows
  have recorded := placeSubtree_recorded hooks level root s [] grows
  dsimp only
  refine ⟨?_, ?_, ?_, ?_⟩
  · rw [recorded, visit_of_grows hooks.recorded level (s, []) grows, Forest.place_recorded]
  · rw [recorded, placed]
  · rw [placed, visit_of_grows hooks level s grows]
  · by_cases hv : root ∈ visited
    · rw [if_pos hv, (visit_of_mem hooks level s hv).1]
    · rw [if_neg hv, (visit_of_not_mem hooks level s hv).1, settle_eq]

end DependencyAtlas.Traversal
