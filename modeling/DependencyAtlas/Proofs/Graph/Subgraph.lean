import DependencyAtlas.Proofs.Graph.Builder
import DependencyAtlas.Proofs.Path.Selection

set_option autoImplicit false

namespace DependencyAtlas

theorem NodeSet.mem_meet {s t : NodeSet} {n : Node} : n ∈ s.meet t ↔ n ∈ s ∧ n ∈ t := by
  rw [mem_iff, mem_iff, mem_iff, find?_meet]
  cases (t.find? n.id).isSome <;> simp

namespace Graph

variable {g : Graph} {keep : NodeSet} {n : Node} {e : Edge} {rule : EdgeRule}

theorem eq_of_link {e f : Edge} (he : e ∈ g.edges) (hf : f ∈ g.edges) (same : e.link = f.link) :
    e = f := by
  have head : e.head = f.head :=
    eq_of_id (g.ends_mem e he).1 (g.ends_mem f hf).1 (congrArg Link.head same)
  have tail : e.tail = f.tail :=
    eq_of_id (g.ends_mem e he).2 (g.ends_mem f hf).2 (congrArg Link.tail same)
  have relation : e.relation = f.relation := congrArg Link.relation same
  cases e
  cases f
  simp_all

theorem exists_collected (g : Graph) :
    ∃ b : Builder, g.nodes.foldlM Builder.add .empty = .ok b ∧ b.nodes.toList = g.nodes := by
  have fresh : ∀ n ∈ g.nodes, Agrees (fun b id => b.known.find? id) Node.id id Builder.empty n :=
    fun n _ => by simp [Agrees, Builder.empty]
  have apart : ∀ m ∈ g.nodes, ∀ n ∈ g.nodes, m.id = n.id → id m = id n :=
    fun _ hm _ hn same => eq_of_id hm hn same
  obtain ⟨b, collected⟩ := Builder.filing.foldlM_iff.2 ⟨fresh, apart⟩
  have nothing : Builder.empty.nodes.toList = ([] : List Node).eraseDups := rfl
  have listed := Builder.nodes_foldlM_add nothing collected
  rw [List.nil_append, eraseDups_of_nodup (List.Nodup.of_map _ g.ids_nodup)] at listed
  exact ⟨b, collected, listed⟩

-- The links of a graph lead back to its edges and are as different as these, so that a builder that is
-- given them loses nothing.
theorem build_connected {b : Builder} (listed : b.nodes.toList = g.nodes)
    (unlinked : b.links = #[]) :
    ((g.edges.map Edge.link).foldl Builder.connect b).build = .ok g := by
  have known {n : Node} (hn : n ∈ g.nodes) : b.known.find? n.id = some n :=
    Builder.find?_known_eq_some_iff.2 ⟨listed ▸ hn, rfl⟩
  have resolved : ∀ e ∈ g.edges, b.resolve e.link = .ok e := fun e he =>
    Builder.resolve_eq_ok_iff.2 ⟨known (g.ends_mem e he).1, known (g.ends_mem e he).2, rfl⟩
  have nodup : (g.edges.map Edge.link).Nodup :=
    g.edges_nodup.map_on fun _ he _ hf same => eq_of_link he hf same
  have edges : (distinct (g.edges.map Edge.link)).mapM b.resolve = .ok g.edges := by
    rw [distinct_eq_eraseDups, eraseDups_of_nodup nodup]
    exact mapM_map_of_back resolved
  rw [Builder.foldl_connect, unlinked, Array.empty_append]
  exact Builder.build_eq_ok_iff.2 ⟨listed.symm, edges⟩

theorem mem_nodes_subgraph : n ∈ (g.subgraph keep).nodes ↔ n ∈ g.nodes ∧ n ∈ keep := by
  simp [subgraph]

theorem mem_edges_subgraph :
    e ∈ (g.subgraph keep).edges ↔ e ∈ g.edges ∧ e.head ∈ keep ∧ e.tail ∈ keep := by
  simp [subgraph]

-- What a new builder makes of the nodes of the set and of the edges whose ends it has got.
def rebuilt (g : Graph) (keep : NodeSet) : Except ModelError Graph := do
  let b ← (g.nodes.filter (keep.contains ·)).foldlM Builder.add .empty
  let edges := g.edges.filter fun e => b.known.contains e.head && b.known.contains e.tail
  ((edges.map Edge.link).foldl Builder.connect b).build

theorem rebuilt_eq (g : Graph) (keep : NodeSet) : g.rebuilt keep = .ok (g.subgraph keep) := by
  obtain ⟨b, collected, listed⟩ := exists_collected (g.subgraph keep)
  have known (n : Node) (own : n ∈ g.nodes) : b.known.contains n = keep.contains n := by
    rw [Bool.eq_iff_iff, Std.ExtTreeSet.contains_iff_mem, Std.ExtTreeSet.contains_iff_mem,
      NodeSet.mem_iff, Builder.isSome_find?_known, listed, List.mem_map]
    constructor
    · intro got
      obtain ⟨m, hm, same⟩ := got
      exact (NodeSet.mem_congr same).1 (mem_nodes_subgraph.1 hm).2
    · exact fun kept => ⟨n, mem_nodes_subgraph.2 ⟨own, kept⟩, rfl⟩
  have edges : g.edges.filter (fun e => b.known.contains e.head && b.known.contains e.tail) =
      (g.subgraph keep).edges :=
    List.filter_congr fun e he => by
      rw [known _ (g.ends_mem e he).1, known _ (g.ends_mem e he).2]
  have unlinked : b.links = #[] := Builder.links_foldlM_add collected
  refine bind_eq_ok_iff.2 ⟨b, collected, ?_⟩
  dsimp only
  rw [edges]
  exact build_connected listed unlinked

theorem filter_edges_subgraph (p : Edge → Bool) :
    ((g.subgraph keep).edges.filter p).reverse =
      (g.edges.filter p).reverse.filter (· ∈ (g.subgraph keep).edges) := by
  rw [List.filter_reverse, List.filter_filter]
  congr 1
  rw [subgraph, List.filter_filter]
  refine List.filter_congr fun e he => ?_
  rw [Bool.eq_iff_iff]
  simp [he, and_comm]

theorem subgraph_subgraph (g : Graph) (a b : NodeSet) :
    (g.subgraph a).subgraph b = g.subgraph (a.meet b) := by
  have both (n : Node) : (b.contains n && a.contains n) = (a.meet b).contains n := by
    rw [Bool.eq_iff_iff]
    simp [NodeSet.mem_meet, and_comm]
  refine Graph.ext ?_ ?_
  · simp only [subgraph, List.filter_filter, both]
  · simp only [subgraph, List.filter_filter]
    refine List.filter_congr fun e _ => ?_
    rw [← both, ← both]
    grind

theorem subgraph_eq_self_iff : g.subgraph keep = g ↔ ∀ n ∈ g.nodes, n ∈ keep := by
  constructor
  · intro same n hn
    rw [← same] at hn
    exact (mem_nodes_subgraph.1 hn).2
  · intro every
    refine Graph.ext (List.filter_eq_self.2 fun n hn => ?_) (List.filter_eq_self.2 fun e he => ?_)
    · simp [every n hn]
    · simp [every _ (g.ends_mem e he).1, every _ (g.ends_mem e he).2]

theorem leads_subgraph {a b : Node} :
    (g.subgraph keep).Leads rule a b ↔ g.Leads rule a b ∧ a ∈ keep ∧ b ∈ keep := by
  simp only [Leads, mem_edges_subgraph]
  grind

theorem related_subgraph (g : Graph) (keep input : NodeSet) (rule : EdgeRule) :
    (g.subgraph keep).related rule input =
      (g.related rule (input.meet keep)).keep (keep.contains ·) := by
  refine NodeSet.ext_toList fun n => ?_
  rw [NodeSet.mem_toList_keep, mem_related_iff, mem_related_iff]
  simp only [leads_subgraph, NodeSet.mem_meet, Std.ExtTreeSet.contains_iff_mem]
  grind

theorem subgraph_induced (g : Graph) (a : NodeSet) :
    let part := g.subgraph a
    g.rebuilt a = .ok part ∧
    (part.nodes.Sublist g.nodes ∧ ∀ n, n ∈ part.nodes ↔ n ∈ g.nodes ∧ n ∈ a) ∧
    (part.edges.Sublist g.edges ∧
      ∀ e, e ∈ part.edges ↔ e ∈ g.edges ∧ e.head ∈ a ∧ e.tail ∈ a) ∧
    (∀ n, part.outgoing n = (g.outgoing n).filter (· ∈ part.edges) ∧
      part.incoming n = (g.incoming n).filter (· ∈ part.edges)) ∧
    (∀ b, part.subgraph b = g.subgraph (a.meet b)) ∧
    (part = g ↔ ∀ n ∈ g.nodes, n ∈ a) ∧
    ∀ rule input,
      part.related rule input = (g.related rule (input.meet a)).keep (a.contains ·) := by
  intro part
  refine ⟨rebuilt_eq g a, ⟨List.filter_sublist, fun n => mem_nodes_subgraph⟩,
    ⟨List.filter_sublist, fun e => mem_edges_subgraph⟩, fun n => ⟨?_, ?_⟩, subgraph_subgraph g a,
    subgraph_eq_self_iff, fun rule input => related_subgraph g a input rule⟩
  · rw [outgoing_eq, outgoing_eq]
    exact filter_edges_subgraph _
  · rw [incoming_eq, incoming_eq]
    exact filter_edges_subgraph _

end Graph

end DependencyAtlas
