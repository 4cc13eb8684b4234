import DependencyAtlas.Path.Meaning
import DependencyAtlas.Proofs.Graph.Content
import DependencyAtlas.Proofs.NodeSet

set_option autoImplicit false

namespace DependencyAtlas

namespace Graph

variable {g : Graph}

def Owns (g : Graph) (s : NodeSet) : Prop := ∀ n ∈ s.toList, n ∈ g.nodes

theorem Owns.eq_of_find? {s : NodeSet} (hs : g.Owns s) {n m : Node} (hn : n ∈ g.nodes)
    (found : s.find? n.id = some m) : m = n := by
  have same : m.id = n.id := NodeSet.id_of_find? found
  exact eq_of_id (hs m (NodeSet.mem_toList.2 (same ▸ found))) hn same

-- Among nodes of the graph the id decides, so what a union keeps of two equal ids does not matter.
theorem Owns.mem_join {s t : NodeSet} (hs : g.Owns s) (ht : g.Owns t) (b : Node) :
    b ∈ (s.join t).toList ↔ b ∈ s.toList ∨ b ∈ t.toList := by
  constructor
  · rw [NodeSet.mem_toList, NodeSet.find?_join, Option.or_eq_some_iff]
    intro found
    rcases found with left | ⟨-, right⟩
    · exact .inl (NodeSet.mem_toList.2 left)
    · exact .inr (NodeSet.mem_toList.2 right)
  · intro member
    rcases member with left | right
    · rw [NodeSet.mem_toList] at left ⊢
      rw [NodeSet.find?_join, left, Option.some_or]
    · have own := ht b right
      rw [NodeSet.mem_toList] at right ⊢
      rw [NodeSet.find?_join, right]
      cases found : s.find? b.id with
      | none => rfl
      | some a => rw [hs.eq_of_find? own found, Option.some_or]

theorem Owns.join {s t : NodeSet} (hs : g.Owns s) (ht : g.Owns t) : g.Owns (s.join t) := by
  intro n hn
  rcases (hs.mem_join ht n).1 hn with h | h
  · exact hs n h
  · exact ht n h

theorem owns_empty : g.Owns ∅ := by
  intro n hn
  simp [NodeSet.mem_toList] at hn

theorem owns_singleton {n : Node} (own : n ∈ g.nodes) : g.Owns (.singleton n) := by
  intro m hm
  rwa [NodeSet.mem_toList_singleton.1 hm]

theorem Owns.mem_iff {s : NodeSet} (hs : g.Owns s) {n : Node} (own : n ∈ g.nodes) :
    n ∈ s ↔ n ∈ s.toList := by
  constructor
  · intro present
    obtain ⟨m, hm, same⟩ := NodeSet.exists_mem_toList present
    rwa [eq_of_id (hs m hm) own same] at hm
  · exact NodeSet.mem_of_mem_toList

theorem Owns.within_iff {s t : NodeSet} (hs : g.Owns s) (ht : g.Owns t) :
    s.Within t ↔ s.toList ⊆ t.toList := by
  constructor
  · intro within n hn
    exact (ht.mem_iff (hs n hn)).1 (within.mem (NodeSet.mem_of_mem_toList hn))
  · intro subset id present
    obtain ⟨n, hn, rfl⟩ := List.mem_map.1 (NodeSet.mem_ids.2 present)
    exact NodeSet.mem_iff.1 (NodeSet.mem_of_mem_toList (subset hn))

theorem Leads.ends_mem {rule : EdgeRule} {a b : Node} (leads : g.Leads rule a b) :
    a ∈ g.nodes ∧ b ∈ g.nodes := by
  obtain ⟨e, he, ⟨-, rfl, rfl⟩ | ⟨-, rfl, rfl⟩⟩ := leads
  · exact g.ends_mem e he
  · exact (g.ends_mem e he).symm

-- The input counts by its ids: what is not in the graph leads nowhere, and labels have no say.
theorem mem_related_iff {rule : EdgeRule} {s : NodeSet} {b : Node} :
    b ∈ (g.related rule s).toList ↔ ∃ a ∈ s, g.Leads rule a b := by
  rw [NodeSet.mem_toList, find?_related_eq_some_iff]
  constructor
  · intro step
    obtain ⟨-, a, ha, step⟩ := step
    have given := NodeSet.mem_of_mem_toList ha
    rcases mem_neighbours.1 step with ⟨e, he, follows, same, tail⟩ | ⟨e, he, follows, same, head⟩
    · exact ⟨e.head, (NodeSet.mem_congr same).2 given, e, he, .inl ⟨follows, rfl, tail⟩⟩
    · exact ⟨e.tail, (NodeSet.mem_congr same).2 given, e, he, .inr ⟨follows, rfl, head⟩⟩
  · intro leads
    obtain ⟨a, ha, e, he, leads⟩ := leads
    obtain ⟨m, hm, same⟩ := NodeSet.exists_mem_toList ha
    refine ⟨rfl, m, hm, mem_neighbours.2 ?_⟩
    rcases leads with ⟨follows, rfl, tail⟩ | ⟨follows, rfl, head⟩
    · exact .inl ⟨e, he, follows, same.symm, tail⟩
    · exact .inr ⟨e, he, follows, same.symm, head⟩

theorem mem_related {rule : EdgeRule} {s : NodeSet} (hs : g.Owns s) (b : Node) :
    b ∈ (g.related rule s).toList ↔ ∃ a ∈ s.toList, g.Leads rule a b := by
  rw [mem_related_iff]
  constructor
  · intro related
    obtain ⟨a, ha, leads⟩ := related
    exact ⟨a, (hs.mem_iff leads.ends_mem.1).1 ha, leads⟩
  · intro related
    obtain ⟨a, ha, leads⟩ := related
    exact ⟨a, NodeSet.mem_of_mem_toList ha, leads⟩

end Graph

namespace Path

namespace Operator

variable {g : Graph}

theorem owns_apply (op : Operator g) {s : NodeSet} (hs : g.Owns s) : g.Owns (op.apply s).nodes := by
  intro n hn
  rcases op.grounded s n.id n (NodeSet.mem_toList.1 hn) with kept | found
  · exact hs n (NodeSet.mem_toList.2 kept)
  · exact (Graph.node?_eq_some_iff.1 found).1

-- On nodes of the graph, the operator answers with what `R` relates to its input.
def Images (op : Operator g) (R : Node → Node → Prop) : Prop :=
  ∀ s, g.Owns s → ∀ b, b ∈ (op.apply s).nodes.toList ↔ ∃ a ∈ s.toList, R a b

theorem images_identity : (identity : Operator g).Images Eq := by
  intro s _ b
  constructor
  · intro h
    exact ⟨b, h, rfl⟩
  · intro related
    obtain ⟨a, h, rfl⟩ := related
    exact h

theorem images_follow (rule : EdgeRule) : (follow rule : Operator g).Images (g.Leads rule) :=
  fun _ hs b => Graph.mem_related hs b

theorem images_keep (p : Node → Bool) :
    (keep p : Operator g).Images fun a b => a = b ∧ p a := by
  intro s _ b
  have kept : b ∈ ((keep p : Operator g).apply s).nodes.toList ↔ b ∈ s.toList ∧ p b := by
    simp only [keep, NodeSet.mem_toList, NodeSet.find?_keep, Option.filter_eq_some_iff]
  rw [kept]
  constructor
  · intro member
    obtain ⟨h, hp⟩ := member
    exact ⟨b, h, rfl, hp⟩
  · intro related
    obtain ⟨a, h, rfl, hp⟩ := related
    exact ⟨h, hp⟩

theorem Images.andThen {a b : Operator g} {R S : Node → Node → Prop} (ha : a.Images R)
    (hb : b.Images S) : (a.andThen b).Images (Relation.Comp R S) := by
  intro s hs c
  have second := hb (a.apply s).nodes (a.owns_apply hs) c
  constructor
  · intro h
    obtain ⟨m, hm, related⟩ := second.1 h
    obtain ⟨n, hn, first⟩ := (ha s hs m).1 hm
    exact ⟨n, hn, m, first, related⟩
  · intro composed
    obtain ⟨n, hn, m, first, related⟩ := composed
    exact second.2 ⟨m, (ha s hs m).2 ⟨n, hn, first⟩, related⟩

theorem Images.accumulated {a : Operator g} {R : Node → Node → Prop} (ha : a.Images R) :
    a.accumulated.Images (Relation.ReflGen R) := by
  intro s hs b
  refine ((hs.mem_join (a.owns_apply hs) b).trans (or_congr_right (ha s hs b))).trans ?_
  constructor
  · intro member
    rcases member with h | ⟨n, hn, related⟩
    · exact ⟨b, h, .refl⟩
    · exact ⟨n, hn, .single related⟩
  · intro member
    obtain ⟨n, hn, _ | related⟩ := member
    · exact .inl hn
    · exact .inr ⟨n, hn, related⟩

-- Between two rounds: a step that leads out of what is found comes from `input`.
structure Frontier (g : Graph) (R : Node → Node → Prop) (start input found : NodeSet) : Prop where
  owns_input : g.Owns input
  owns_found : g.Owns found
  input_reached : ∀ b ∈ input.toList, ∃ a ∈ start.toList, Relation.ReflTransGen R a b
  found_reached : ∀ b ∈ found.toList, ∃ a ∈ start.toList, Relation.TransGen R a b
  open_input : ∀ a, a ∈ start.toList ∨ a ∈ found.toList → ∀ b, R a b →
    b ∈ found.toList ∨ a ∈ input.toList

variable {op : Operator g} {R : Node → Node → Prop} {start input found : NodeSet}

theorem Frontier.initial (hs : g.Owns start) : Frontier g R start start ∅ where
  owns_input := hs
  owns_found := Graph.owns_empty
  input_reached b hb := ⟨b, hb, .refl⟩
  found_reached b hb := by simp [NodeSet.mem_toList] at hb
  open_input a ha b _ := by
    rcases ha with ha | ha
    · exact .inr ha
    · simp [NodeSet.mem_toList] at ha

theorem Frontier.reached (images : op.Images R) (f : Frontier g R start input found) :
    ∀ b ∈ (op.apply input).nodes.toList, ∃ a ∈ start.toList, Relation.TransGen R a b := by
  intro b hb
  obtain ⟨m, hm, related⟩ := (images input f.owns_input b).1 hb
  obtain ⟨a, ha, path⟩ := f.input_reached m hm
  exact ⟨a, ha, .tail' path related⟩

theorem Frontier.next (images : op.Images R) (f : Frontier g R start input found) :
    Frontier g R start (op.apply input).nodes (found.join (op.apply input).nodes) := by
  have ownsNow : g.Owns (op.apply input).nodes := op.owns_apply f.owns_input
  have members := f.owns_found.mem_join ownsNow
  constructor
  · exact ownsNow
  · exact f.owns_found.join ownsNow
  · intro b hb
    obtain ⟨a, ha, path⟩ := f.reached images b hb
    exact ⟨a, ha, path.to_reflTransGen⟩
  · intro b hb
    rcases (members b).1 hb with old | new
    · exact f.found_reached b old
    · exact f.reached images b new
  · -- a step out of the new nodes is the next round's; any other one was taken now or before
    intro a ha b related
    have old (h : a ∈ start.toList ∨ a ∈ found.toList) :
        b ∈ (found.join (op.apply input).nodes).toList := by
      rcases f.open_input a h b related with known | pending
      · exact (members b).2 (.inl known)
      · exact (members b).2 (.inr ((images input f.owns_input b).2 ⟨a, pending, related⟩))
    rcases ha with ha | ha
    · exact .inl (old (.inl ha))
    · rcases (members a).1 ha with ha | ha
      · exact .inl (old (.inr ha))
      · exact .inr ha

-- The first round without anything new ends the search: what is found is closed under steps.
theorem Frontier.complete (images : op.Images R) (f : Frontier g R start input found)
    (done : (op.apply input).nodes.Within found) {a b : Node} (ha : a ∈ start.toList)
    (path : Relation.TransGen R a b) : b ∈ found.toList := by
  have ownsNow : g.Owns (op.apply input).nodes := op.owns_apply f.owns_input
  have closed (n : Node) (hn : n ∈ start.toList ∨ n ∈ found.toList) (m : Node) (related : R n m) :
      m ∈ found.toList := by
    rcases f.open_input n hn m related with known | pending
    · exact known
    · have now := (images input f.owns_input m).2 ⟨n, pending, related⟩
      exact (ownsNow.within_iff f.owns_found).1 done now
  induction path with
  | single related => exact closed a (.inl ha) _ related
  | tail _ related ih => exact closed _ (.inr ih) _ related

theorem Frontier.mem_rounds (images : op.Images R) (bound input : NodeSet) (found : Outcome)
    (count : Nat) (hg hi hf) (f : Frontier g R start input found.nodes) (b : Node) :
    b ∈ (op.rounds true bound input found count hg hi hf).outcome.nodes.toList ↔
      ∃ a ∈ start.toList, Relation.TransGen R a b := by
  rw [rounds]
  split
  · exact (f.next images).mem_rounds images bound _ _ _ _ _ _ b
  · next ended =>
    have done : (op.apply input).nodes.Within found.nodes := by
      simpa [NodeSet.size_lt_size_join_iff] using ended
    constructor
    · exact (f.next images).found_reached b
    · intro reached
      obtain ⟨a, ha, path⟩ := reached
      have kept := f.complete images done ha path
      exact (f.owns_found.mem_join (op.owns_apply f.owns_input) b).2 (.inl kept)
termination_by bound.size - found.nodes.size
decreasing_by
  have := (NodeSet.Within.join hf (op.within hi hg)).size_le
  grind

theorem nodes_rounds_once (bound input : NodeSet) (found : Outcome) (count : Nat) (hg hi hf) :
    (op.rounds false bound input found count hg hi hf).outcome.nodes =
      found.nodes.join (op.apply input).nodes := by
  rw [rounds, if_neg (by simp)]

theorem Images.once (images : op.Images R) (name : String) : (op.term name false).Images R := by
  intro s hs b
  have nodes : ((op.term name false).apply s).nodes = (∅ : NodeSet).join (op.apply s).nodes :=
    nodes_rounds_once _ s ⟨∅, #[]⟩ 0 _ _ _
  have nothing : b ∉ (∅ : NodeSet).toList := by simp [NodeSet.mem_toList]
  rw [← images s hs b, nodes, Graph.owns_empty.mem_join (op.owns_apply hs)]
  exact or_iff_right nothing

theorem Images.repeated (images : op.Images R) (name : String) :
    (op.term name true).Images (Relation.TransGen R) := by
  intro s hs b
  exact (Frontier.initial hs).mem_rounds images _ _ _ _ _ _ _ b

end Operator

variable (g : Graph)

mutual

theorem Selector.images : (s : Selector) → (s.operator g).Images (s.Relates g)
  | .edges _ rule => by
    rw [Selector.operator, Selector.Relates]
    exact Operator.images_follow rule
  | .kinds f => by
    rw [Selector.operator, Selector.Relates]
    exact Operator.images_keep _
  | .path e => by
    rw [Selector.operator, Selector.Relates]
    exact e.images

theorem Term.images : (t : Term) → (t.operator g).Images (t.Relates g)
  | .mk s true c => by
    rw [Term.operator, Term.Relates]
    exact s.images.repeated _
  | .mk s false c => by
    rw [Term.operator, Term.Relates]
    exact s.images.once _

theorem Expression.images : (e : Expression) → (e.operator g).Images (e.Relates g)
  | .mk _ terms => by
    rw [Expression.operator, Expression.Relates]
    exact pipeline_images terms

theorem pipeline_images : (terms : List Term) → (pipeline g terms).Images (Related g terms)
  | [] => by
    rw [pipeline, Related]
    exact Operator.images_identity
  | .mk s r true :: rest => by
    rw [pipeline, Related]
    exact (Term.images (.mk s r true)).accumulated.andThen (pipeline_images rest)
  | .mk s r false :: rest => by
    rw [pipeline, Related]
    exact (Term.images (.mk s r false)).andThen (pipeline_images rest)

end

variable {g}

theorem mem_select_iff_relates (e : Expression) (input : NodeSet)
    (own : ∀ n ∈ input.toList, n ∈ g.nodes) :
    (∀ n ∈ (e.select g input).toList, n ∈ g.nodes) ∧
      ∀ b, b ∈ (e.select g input).toList ↔ ∃ a ∈ input.toList, e.Relates g a b :=
  ⟨(e.operator g).owns_apply own, e.images g input own⟩

def triangle : Graph where
  nodes := [⟨"a", "a", .type⟩, ⟨"b", "b", .type⟩, ⟨"c", "c", .method⟩]
  edges := [⟨⟨"a", "a", .type⟩, ⟨"b", "b", .type⟩, ⟨"uses", "used by"⟩⟩,
    ⟨⟨"b", "b", .type⟩, ⟨"c", "c", .method⟩, ⟨"uses", "used by"⟩⟩,
    ⟨⟨"c", "c", .method⟩, ⟨"a", "a", .type⟩, ⟨"uses", "used by"⟩⟩]
  ids_nodup := by decide
  edges_nodup := by decide
  ends_mem := by decide

def usedMethods : Expression :=
  .mk none [
    .mk (.path (.mk none [.mk (.edges "uses" (.along .all)) false false])) true true,
    .mk (.kinds (.of [.method])) false false]

theorem mem_select_usedMethods :
    (∀ n ∈ (NodeSet.singleton ⟨"a", "a", .type⟩).toList, n ∈ triangle.nodes) ∧
      ∀ b, b ∈ (usedMethods.select triangle (.singleton ⟨"a", "a", .type⟩)).toList ↔
        b = ⟨"c", "c", .method⟩ := by
  have start (n : Node) : n ∈ (NodeSet.singleton ⟨"a", "a", .type⟩).toList ↔
      n = ⟨"a", "a", .type⟩ := by
    rw [NodeSet.mem_toList, NodeSet.find?_singleton]
    constructor
    · intro h
      split at h
      · exact (Option.some.inj h).symm
      · cases h
    · intro same
      rw [same]
      rfl
  have own : ∀ n ∈ (NodeSet.singleton ⟨"a", "a", .type⟩).toList, n ∈ triangle.nodes := by
    intro n hn
    rw [(start n).1 hn]
    decide
  obtain ⟨owned, selected⟩ := mem_select_iff_relates usedMethods _ own
  refine ⟨own, fun b => ⟨fun h => ?_, ?_⟩⟩
  · have only : ∀ m ∈ triangle.nodes, (KindFilter.of [.method]).accepts m.kind →
        m = ⟨"c", "c", .method⟩ := by decide
    obtain ⟨_, -, m, -, _, ⟨rfl, accepted⟩, rfl⟩ := (selected b).1 h
    exact only m (owned m h) accepted
  · intro same
    rw [same]
    have first : triangle.Leads (.along .all) ⟨"a", "a", .type⟩ ⟨"b", "b", .type⟩ :=
      ⟨_, List.mem_cons_self, .inl ⟨rfl, rfl, rfl⟩⟩
    have second : triangle.Leads (.along .all) ⟨"b", "b", .type⟩ ⟨"c", "c", .method⟩ :=
      ⟨_, List.mem_cons_of_mem _ List.mem_cons_self, .inl ⟨rfl, rfl, rfl⟩⟩
    refine (selected _).2 ⟨_, (start _).2 rfl, ⟨"c", "c", .method⟩, .single ?_, ?_⟩
    · exact .tail (.single ⟨_, first, rfl⟩) ⟨_, second, rfl⟩
    · exact ⟨_, ⟨rfl, by decide⟩, rfl⟩

end Path

end DependencyAtlas
