import DependencyAtlas.Proofs.Layout.Spans

set_option autoImplicit false

namespace DependencyAtlas.Traversal

variable {h : Hierarchy} {cs : List Node} {visited after : NodeSet} {forest : Forest} {σ : Type}

-- The run goes through the forest below the topmost frame, and then on to the frames under it.
theorem Grows.span_of_pushes (grows : Grows h cs visited forest after) (hooks : Hooks σ)
    {f : Frame h} (waiting : f.pending = cs) {rest : List (Frame h)} {s : σ} {a c : Node}
    {v : NodeSet} (level next : Nat) (pushes : Pushes h hooks (f :: rest, ⟨visited, s⟩) a c v) :
    (∃ x ∈ forest.spans (some f.node) level next, x.above = some a ∧ x.node = c ∧
      ∃ between, Grows h (orderedChildren h c v) v x.below between) ∨
    Pushes h hooks (rest, ⟨after, settle hooks f.node f.level f.left (f.placed || !forest.isEmpty)
      (forest.place hooks (f.level + 1) s)⟩) a c v := by
  induction grows generalizing f rest s level next with
  | done visited =>
    cases pushes with
    | now pending _ => simp [waiting] at pending
    | later pushes =>
      rw [turn_done hooks waiting] at pushes
      right
      simpa [Forest.isEmpty] using pushes
  | skip known _ ih =>
    cases pushes with
    | now pending fresh =>
      rw [waiting] at pending
      exact absurd known ((List.cons.inj pending).1 ▸ fresh)
    | later pushes =>
      rw [turn_pass hooks waiting known] at pushes
      exact ih (f := f.pass) (f.pending_pass waiting) level next pushes
  | @enter c' cs visited between after below beside fresh growsBelow _ ihBelow ihBeside =>
    cases pushes with
    | now pending _ =>
      rw [waiting] at pending
      cases pending
      exact .inl ⟨_, Forest.root_mem_spans .., rfl, rfl, _, growsBelow⟩
    | later pushes =>
      rw [turn_push hooks waiting fresh] at pushes
      rcases ihBelow rfl (level + 1) next pushes with ⟨x, hx, found⟩ | pushes
      · exact .inl ⟨x, Forest.below_subset_spans _ _ _ _ _ _ hx, found⟩
      rcases ihBeside (f := { f.pass with placed := true }) (f.pending_pass waiting) level
        (next + max 1 below.leaves) pushes with ⟨x, hx, found⟩ | pushes
      · exact .inl ⟨x, Forest.beside_subset_spans _ _ _ _ _ _ hx, found⟩
      have placed : (f.placed || !(Forest.cons c' below beside).isEmpty) = true := Bool.or_true _
      rw [placed, Forest.place_cons]
      exact .inr pushes

theorem Grows.pushes_of_span (grows : Grows h cs visited forest after) (hooks : Hooks σ)
    (f : Frame h) (waiting : f.pending = cs) (rest : List (Frame h)) (s : σ) (level next : Nat) :
    ∀ x ∈ forest.spans (some f.node) level next,
      ∃ a v, x.above = some a ∧ Pushes h hooks (f :: rest, ⟨visited, s⟩) a x.node v := by
  induction grows generalizing f rest s level next with
  | done => simp
  | skip known _ ih =>
    intro x hx
    obtain ⟨a, v, parent, pushes⟩ := ih f.pass (f.pending_pass waiting) rest s level next x hx
    rw [← turn_pass hooks waiting known] at pushes
    exact ⟨a, v, parent, .later pushes⟩
  | @enter c cs visited between after below beside fresh growsBelow _ ihBelow ihBeside =>
    intro x hx
    let entered : Frame h := .enter h hooks c (f.level + 1) ⟨visited.add c, s⟩
    let waits : Frame h := { f.pass with placed := true }
    have turned : turn h hooks f rest ⟨visited, s⟩ =
        (entered :: waits :: rest, ⟨visited.add c, s⟩) := turn_push hooks waiting fresh
    rcases Forest.mem_spans_cons.1 hx with inner | rfl | others
    · obtain ⟨a, v, parent, pushes⟩ := ihBelow entered rfl (waits :: rest) s (level + 1) next x inner
      exact ⟨a, v, parent, .later (turned ▸ pushes)⟩
    · exact ⟨f.node, _, rfl, .now waiting fresh⟩
    · obtain ⟨a, v, parent, pushes⟩ :=
        ihBeside waits (f.pending_pass waiting) rest _ level _ x others
      have passes := growsBelow.passes hooks entered rfl (waits :: rest) s
      exact ⟨a, v, parent, .later (turned ▸ passes.pushes pushes)⟩

theorem Grows.split {ds : List Node} (grows : Grows h (cs ++ ds) visited forest after) :
    ∃ first second between, Grows h cs visited first between ∧
      Grows h ds between second after ∧ forest = first.append second := by
  induction cs generalizing visited forest with
  | nil => exact ⟨.nil, forest, visited, .done visited, grows, rfl⟩
  | cons c rest ih =>
    cases grows with
    | skip known others =>
      obtain ⟨first, second, between, row, more, whole⟩ := ih others
      exact ⟨first, second, between, .skip known row, more, whole⟩
    | enter fresh below beside =>
      obtain ⟨first, second, between, row, more, rfl⟩ := ih beside
      exact ⟨_, second, between, .enter fresh below row, more, rfl⟩

section Roots

variable {hooks : Hooks σ} {roots : NodeSet} {s : σ}

theorem Starts.split {r : Node} {q : Progress σ} (starts : Starts h hooks roots ⟨visited, s⟩ r q)
    (grows : Grows h roots.toList visited forest after) :
    ∃ (first below beside : Forest) (between : NodeSet),
      Grows h (orderedChildren h r (q.visited.add r)) (q.visited.add r) below between ∧
        forest = first.append (.cons r below beside) := by
  obtain ⟨earlier, later, roots_eq, progress, fresh⟩ := starts
  rw [roots_eq] at grows
  obtain ⟨first, second, between, row, tree, rfl⟩ := grows.split
  rw [foldl_placeSubtree_of_grows hooks _ s row] at progress
  rw [← progress] at fresh ⊢
  cases tree with
  | skip known _ => exact absurd known fresh
  | enter _ below _ => exact ⟨first, _, _, _, below, rfl⟩

theorem Entered.exists_span {above : Option Node} {n : Node} {v : NodeSet}
    (entered : Entered h hooks roots ⟨visited, s⟩ above n v)
    (grows : Grows h roots.toList visited forest after) (level next : Nat) :
    ∃ x ∈ forest.spans none level next, x.above = above ∧ x.node = n ∧
      ∃ between, Grows h (orderedChildren h n v) v x.below between := by
  cases entered with
  | root starts =>
    obtain ⟨first, below, beside, between, growsBelow, rfl⟩ := starts.split grows
    rw [Forest.spans_append]
    exact ⟨_, List.mem_append_right _ (Forest.root_mem_spans ..), rfl, rfl, between, growsBelow⟩
  | child starts pushes =>
    obtain ⟨first, below, beside, between, growsBelow, rfl⟩ := starts.split grows
    rw [Forest.spans_append]
    rcases growsBelow.span_of_pushes hooks rfl (level + 1) (next + first.leaves) pushes with
      ⟨x, hx, found⟩ | after
    · exact ⟨x, List.mem_append_right _ (Forest.below_subset_spans _ _ _ _ _ _ hx), found⟩
    · cases after

-- Root by root, with the progress that the earlier ones have made.
theorem Grows.exists_entered (grows : Grows h cs visited forest after) {earlier : List Node}
    {p : Progress σ} {t : σ} (row : roots.toList = earlier ++ cs)
    (progress : earlier.foldl (placeSubtree h hooks (hooks.rootLevel p.state roots)) p =
      ⟨visited, t⟩) (level next : Nat) :
    ∀ x ∈ forest.spans none level next, ∃ v, Entered h hooks roots p x.above x.node v := by
  let place := placeSubtree h hooks (hooks.rootLevel p.state roots)
  induction grows generalizing earlier t next with
  | done => simp
  | @skip c cs visited after forest known _ ih =>
    have rowLeft : roots.toList = earlier ++ [c] ++ cs := by simp [row]
    have onward : (earlier ++ [c]).foldl place p = ⟨visited, t⟩ := by
      rw [List.foldl_append, progress]
      exact foldl_placeSubtree_of_grows hooks _ t (.skip known (.done visited))
    exact ih rowLeft onward next
  | @enter c cs visited between after below beside fresh growsBelow _ _ ihBeside =>
    intro x hx
    have starts : Starts h hooks roots p c ⟨visited, t⟩ := ⟨earlier, cs, row, progress, fresh⟩
    rcases Forest.mem_spans_cons.1 hx with inner | rfl | others
    · obtain ⟨a, v, parent, pushes⟩ := growsBelow.pushes_of_span hooks
        (.enter h hooks c (hooks.rootLevel p.state roots) ⟨visited.add c, t⟩) rfl [] t _ _ x inner
      rw [parent]
      exact ⟨v, .child starts pushes⟩
    · exact ⟨_, .root starts⟩
    · have rowLeft : roots.toList = earlier ++ [c] ++ cs := by simp [row]
      have onward : (earlier ++ [c]).foldl place p =
          ⟨between, (Forest.cons c below .nil).place hooks (hooks.rootLevel p.state roots) t⟩ := by
        rw [List.foldl_append, progress]
        exact foldl_placeSubtree_of_grows hooks _ t (.enter fresh growsBelow (.done between))
      exact ihBeside rowLeft onward _ x others

theorem exists_entered_iff (grows : Grows h roots.toList visited forest after) {above : Option Node}
    {n : Node} (level next : Nat) :
    (∃ v, Entered h hooks roots ⟨visited, s⟩ above n v) ↔
      ∃ x ∈ forest.spans none level next, x.above = above ∧ x.node = n := by
  constructor
  · intro entered
    obtain ⟨v, entered⟩ := entered
    obtain ⟨x, hx, parent, here, -⟩ := entered.exists_span grows level next
    exact ⟨x, hx, parent, here⟩
  · intro span
    obtain ⟨x, hx, rfl, rfl⟩ := span
    exact grows.exists_entered (List.nil_append _).symm rfl level next x hx

end Roots

def Enters (h : Hierarchy) (hooks : Hooks σ) (roots : NodeSet) (p : Progress σ) (a c : Node) : Prop :=
  ∃ v, Entered h hooks roots p (some a) c v

def Encloses (h : Hierarchy) (hooks : Hooks σ) (roots : NodeSet) (p : Progress σ) :
    Node → Node → Prop :=
  Relation.ReflTransGen (Enters h hooks roots p)

def Tip (h : Hierarchy) (hooks : Hooks σ) (roots : NodeSet) (p : Progress σ) (n : Node) : Prop :=
  ∀ c, ¬ Enters h hooks roots p n c

section Spans

variable {hooks : Hooks σ} {roots : NodeSet} {s : σ} {level next : Nat} {x : Span}

theorem enters_eq_stands (grows : Grows h roots.toList visited forest after) (level next : Nat) :
    Enters h hooks roots ⟨visited, s⟩ = forest.Stands level next := by
  funext a c
  exact propext (exists_entered_iff grows level next)

theorem Grows.nodes_nodup (grows : Grows h cs visited forest after) : forest.nodes.Nodup :=
  .of_map _ grows.ids_nodup

theorem encloses_iff (grows : Grows h roots.toList visited forest after)
    (hx : x ∈ forest.spans none level next) (n : Node) :
    Encloses h hooks roots ⟨visited, s⟩ x.node n ↔ ∃ y ∈ x.inside, y.node = n := by
  rw [Encloses, enters_eq_stands grows level next]
  exact Forest.stands_iff_inside grows.nodes_nodup hx n

theorem tip_iff (grows : Grows h roots.toList visited forest after)
    (hx : x ∈ forest.spans none level next) :
    Tip h hooks roots ⟨visited, s⟩ x.node ↔ x.below.isEmpty := by
  rw [Tip, enters_eq_stands grows level next]
  exact (Forest.isEmpty_below_iff grows.nodes_nodup hx).symm

end Spans

end DependencyAtlas.Traversal
