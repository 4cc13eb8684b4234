import DependencyAtlas.Proofs.NodeSet
import DependencyAtlas.Traversal.Turn

set_option autoImplicit false

namespace DependencyAtlas.Traversal

inductive Forest where
  | nil
  | cons (node : Node) (below beside : Forest)
deriving DecidableEq, Repr

namespace Forest

def isEmpty : Forest → Bool
  | nil => true
  | cons .. => false

def nodes : Forest → List Node
  | nil => []
  | cons n below beside => below.nodes ++ n :: beside.nodes

@[simp] theorem nodes_nil : nil.nodes = [] := rfl

@[simp] theorem nodes_cons (n : Node) (below beside : Forest) :
    (cons n below beside).nodes = below.nodes ++ n :: beside.nodes := rfl

variable {σ : Type}

def place (hooks : Hooks σ) (level : Nat) : Forest → σ → σ
  | nil, s => s
  | cons n below beside, s =>
    let done := below.place hooks (level + 1) s
    beside.place hooks level
      (settle hooks n level (hooks.offset s (level + 1)) (!below.isEmpty) done)

@[simp] theorem place_nil (hooks : Hooks σ) (level : Nat) (s : σ) : nil.place hooks level s = s :=
  rfl

theorem place_cons (hooks : Hooks σ) (level : Nat) (n : Node) (below beside : Forest) (s : σ) :
    (cons n below beside).place hooks level s = beside.place hooks level
      (settle hooks n level (hooks.offset s (level + 1)) (!below.isEmpty)
        (below.place hooks (level + 1) s)) := rfl

end Forest

-- What is entered for nodes in a row, and what has been visited then; the hooks have no say in it.
inductive Grows (h : Hierarchy) : List Node → NodeSet → Forest → NodeSet → Prop where
  | done (visited : NodeSet) : Grows h [] visited .nil visited
  | skip {c : Node} {cs : List Node} {visited after : NodeSet} {forest : Forest} :
    c ∈ visited → Grows h cs visited forest after → Grows h (c :: cs) visited forest after
  | enter {c : Node} {cs : List Node} {visited between after : NodeSet} {below beside : Forest} :
    c ∉ visited →
    Grows h (orderedChildren h c (visited.add c)) (visited.add c) below between →
    Grows h cs between beside after →
    Grows h (c :: cs) visited (.cons c below beside) after

namespace Grows

variable {h : Hierarchy} {cs : List Node} {visited after : NodeSet} {forest : Forest}

-- Nothing that was visited is forgotten, which bounds the recursion in `exists_of_within`.
theorem within (grows : Grows h cs visited forest after) : visited.Within after := by
  induction grows with
  | done visited => exact .refl visited
  | skip _ _ ih => exact ih
  | enter _ _ _ below beside => exact (NodeSet.within_add _ _).trans (below.trans beside)

theorem eq_nil_or_tree (grows : Grows h cs visited forest after) (single : cs.length ≤ 1) :
    forest = .nil ∨ ∃ root below, forest = .cons root below .nil := by
  cases cs with
  | nil =>
    cases grows with
    | done => exact .inl rfl
  | cons root rest =>
    have alone : rest = [] := List.eq_nil_of_length_eq_zero (by simpa using single)
    rw [alone] at grows
    cases grows with
    | skip _ others =>
      cases others with
      | done => exact .inl rfl
    | enter _ _ others =>
      cases others with
      | done => exact .inr ⟨root, _, rfl⟩

theorem exists_of_within (h : Hierarchy) (cs : List Node) (visited : NodeSet)
    (inside : ∀ c ∈ cs, c ∈ h.nodes) : ∃ forest after, Grows h cs visited forest after := by
  match cs with
  | [] => exact ⟨.nil, visited, .done visited⟩
  | c :: rest =>
    have others : ∀ d ∈ rest, d ∈ h.nodes := fun d hd => inside d (List.mem_cons_of_mem c hd)
    by_cases hv : c ∈ visited
    · obtain ⟨forest, after, grows⟩ := exists_of_within h rest visited others
      exact ⟨forest, after, .skip hv grows⟩
    · have less := unvisited_add_lt (inside c List.mem_cons_self) hv
      obtain ⟨below, between, growsBelow⟩ := exists_of_within h
        (orderedChildren h c (visited.add c)) (visited.add c)
        fun _ => mem_nodes_of_mem_orderedChildren
      have bound : unvisited h between ≤ unvisited h (visited.add c) :=
        (growsBelow.within.minus h.nodes).size_le
      obtain ⟨beside, after, growsBeside⟩ := exists_of_within h rest between others
      exact ⟨.cons c below beside, after, .enter hv growsBelow growsBeside⟩
termination_by (unvisited h visited, cs.length)
decreasing_by
  · exact .right _ (by simp)
  · exact .left _ _ less
  · exact .left _ _ (by omega)

-- The first nodes need not belong to the hierarchy; all that is below them does.
theorem exists_forest (h : Hierarchy) (cs : List Node) (visited : NodeSet) :
    ∃ forest after, Grows h cs visited forest after := by
  induction cs generalizing visited with
  | nil => exact ⟨.nil, visited, .done visited⟩
  | cons c rest ih =>
    by_cases hv : c ∈ visited
    · obtain ⟨forest, after, grows⟩ := ih visited
      exact ⟨forest, after, .skip hv grows⟩
    · obtain ⟨below, between, growsBelow⟩ := exists_of_within h
        (orderedChildren h c (visited.add c)) (visited.add c)
        fun _ => mem_nodes_of_mem_orderedChildren
      obtain ⟨beside, after, growsBeside⟩ := ih between
      exact ⟨.cons c below beside, after, .enter hv growsBelow growsBeside⟩

end Grows

variable {h : Hierarchy} {cs : List Node} {visited after : NodeSet} {forest : Forest} {σ : Type}

-- The induction is on the forest below the topmost frame: the frames under it do not change
-- before that frame is settled.
theorem Grows.passes (grows : Grows h cs visited forest after) (hooks : Hooks σ) (f : Frame h)
    (waiting : f.pending = cs) (rest : List (Frame h)) (s : σ) :
    Passes h hooks (f :: rest, ⟨visited, s⟩) (rest, ⟨after,
      settle hooks f.node f.level f.left (f.placed || !forest.isEmpty)
        (forest.place hooks (f.level + 1) s)⟩) := by
  induction grows generalizing f rest s with
  | done visited =>
    apply Passes.turn
    have placed : (f.placed || !Forest.nil.isEmpty) = f.placed := Bool.or_false _
    rw [turn_done hooks waiting, placed]
    exact .here _
  | skip known _ ih =>
    apply Passes.turn
    rw [turn_pass hooks waiting known]
    exact ih f.pass (f.pending_pass waiting) rest s
  | @enter c cs visited between after below beside fresh _ _ ihBelow ihBeside =>
    apply Passes.turn
    rw [turn_push hooks waiting fresh]
    have inner := ihBelow (.enter h hooks c (f.level + 1) ⟨visited.add c, s⟩) rfl
      ({ f.pass with placed := true } :: rest) s
    have outer := ihBeside { f.pass with placed := true } (f.pending_pass waiting) rest
      (settle hooks c (f.level + 1) (hooks.offset s (f.level + 1 + 1)) (!below.isEmpty)
        (below.place hooks (f.level + 1 + 1) s))
    have placed : (f.placed || !(Forest.cons c below beside).isEmpty) = true := Bool.or_true _
    rw [placed, Forest.place_cons]
    exact inner.trans outer

theorem run_of_grows (hooks : Hooks σ) (grows : Grows h cs visited forest after) (f : Frame h)
    (waiting : f.pending = cs) (rest : List (Frame h)) (s : σ) :
    run h hooks (f :: rest) ⟨visited, s⟩ = run h hooks rest ⟨after,
      settle hooks f.node f.level f.left (f.placed || !forest.isEmpty)
        (forest.place hooks (f.level + 1) s)⟩ :=
  (grows.passes hooks f waiting rest s).run_eq

theorem foldl_placeSubtree_of_grows (hooks : Hooks σ) (level : Nat) (s : σ)
    (grows : Grows h cs visited forest after) :
    cs.foldl (placeSubtree h hooks level) ⟨visited, s⟩ = ⟨after, forest.place hooks level s⟩ := by
  induction grows generalizing s with
  | done => rfl
  | skip hv _ ih =>
    rw [List.foldl_cons, placeSubtree, if_pos (Std.ExtTreeSet.contains_iff_mem.2 hv), ih]
  | enter fresh below _ _ ihBeside =>
    rw [List.foldl_cons, placeSubtree,
      if_neg (fun known => fresh (Std.ExtTreeSet.contains_iff_mem.1 known))]
    dsimp only
    rw [run_of_grows hooks below _ rfl, run, ihBeside, Forest.place_cons]
    simp [Frame.enter]

theorem placeRoots_of_grows (hooks : Hooks σ) {roots : NodeSet} (s : σ)
    (grows : Grows h roots.toList visited forest after) :
    placeRoots h hooks roots ⟨visited, s⟩ =
      ⟨after, forest.place hooks (hooks.rootLevel s roots) s⟩ :=
  foldl_placeSubtree_of_grows hooks (hooks.rootLevel s roots) s grows

end DependencyAtlas.Traversal
