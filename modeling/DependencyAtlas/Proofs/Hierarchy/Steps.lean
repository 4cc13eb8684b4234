import DependencyAtlas.Proofs.Hierarchy
import DependencyAtlas.Proofs.Path.Selection
import Mathlib.Data.Fintype.Card
import Mathlib.Data.Set.Finite.List
import Mathlib.Order.WellFounded

set_option autoImplicit false

namespace DependencyAtlas

namespace Graph

variable {g : Graph} {rule : EdgeRule}

theorem mem_nodeSet_toList {n : Node} : n ∈ g.nodeSet.toList ↔ n ∈ g.nodes := by
  rw [NodeSet.mem_toList, find?_nodeSet, node?_eq_some_iff, and_iff_left rfl]

theorem contains_iff {n : Node} : g.contains n ↔ n ∈ g.nodeSet := by
  rw [NodeSet.mem_iff, find?_nodeSet, node?, Option.isSome_map, contains,
    Std.ExtTreeMap.contains_eq_isSome_getElem?]

end Graph

theorem Neighbours.mem_beside_of {pairs : List (Node × Node)} (determined : Determined pairs)
    {id : String} {b : Node} :
    b ∈ ((of pairs).beside id).toList ↔ ∃ p ∈ pairs, p.1.id = id ∧ p.2 = b := by
  rw [NodeSet.mem_toList, find?_beside_of_eq_some_iff determined]
  simp only [Bool.and_eq_true, beq_iff_eq]
  constructor
  · intro listed
    obtain ⟨p, hp, ⟨first, -⟩, second⟩ := listed
    exact ⟨p, hp, first, second⟩
  · intro listed
    obtain ⟨p, hp, first, rfl⟩ := listed
    exact ⟨p, hp, ⟨first, rfl⟩, rfl⟩

namespace Hierarchy

variable {g : Graph} {rule : EdgeRule} {a b n : Node}

theorem mem_pairs_iff_leads : (a, b) ∈ pairs g rule ↔ a.id ≠ b.id ∧ g.Leads rule a b := by
  rw [mem_pairs, Graph.Leads]
  simp only [Prod.mk.injEq, eq_comm (a := a), eq_comm (a := b)]

-- Any node may be asked for its children: it counts by its id.
theorem mem_children_iff :
    b ∈ ((ofGraph g rule).children n).toList ↔ n.id ≠ b.id ∧ ∃ a, a.id = n.id ∧ g.Leads rule a b := by
  rw [children, ofGraph, ofPairs, Neighbours.mem_beside_of (determined_pairs g rule)]
  constructor
  · intro listed
    obtain ⟨⟨a, c⟩, hp, same, rfl⟩ := listed
    obtain ⟨apart, leads⟩ := mem_pairs_iff_leads.1 hp
    exact ⟨same ▸ apart, a, same, leads⟩
  · intro below
    obtain ⟨apart, a, same, leads⟩ := below
    exact ⟨(a, b), mem_pairs_iff_leads.2 ⟨same ▸ apart, leads⟩, same, rfl⟩

theorem mem_children_ofGraph (own : a ∈ g.nodes) :
    b ∈ ((ofGraph g rule).children a).toList ↔ a.id ≠ b.id ∧ g.Leads rule a b := by
  rw [mem_children_iff]
  refine and_congr_right fun _ => ⟨fun below => ?_, fun leads => ⟨a, rfl, leads⟩⟩
  obtain ⟨m, same, leads⟩ := below
  rwa [Graph.eq_of_id leads.ends_mem.1 own same] at leads

theorem parents_eq_children_inverted (g : Graph) (rule : EdgeRule) (n : Node) :
    (ofGraph g rule).parents n = (ofGraph g rule.inverted).children n := by
  rw [ofGraph_inverted]
  rfl

theorem mem_parents_ofGraph (own : b ∈ g.nodes) :
    a ∈ ((ofGraph g rule).parents b).toList ↔ a.id ≠ b.id ∧ g.Leads rule a b := by
  rw [parents_eq_children_inverted, mem_children_ofGraph own, Graph.leads_inverted, ne_comm]

theorem owns_roots (g : Graph) (rule : EdgeRule) : g.Owns (ofGraph g rule).roots := by
  intro n hn
  exact Graph.mem_nodeSet_toList.1 (NodeSet.mem_toList_keep.1 hn).1

theorem mem_nodes_of_reaches (own : a ∈ g.nodes) (reaches : (ofGraph g rule).Reaches a b) :
    b ∈ g.nodes := by
  induction reaches with
  | refl => exact own
  | step child _ ih => exact ih ((mem_children_ofGraph own).1 child).2.ends_mem.2

theorem reaches_ofGraph_iff (own : a ∈ g.nodes) :
    (ofGraph g rule).Reaches a b ↔ Relation.ReflTransGen (g.Leads rule) a b := by
  constructor
  · intro reaches
    induction reaches with
    | refl => exact .refl
    | step child _ ih =>
      have leads := ((mem_children_ofGraph own).1 child).2
      exact .head leads (ih leads.ends_mem.2)
  · intro walk
    induction walk using Relation.ReflTransGen.head_induction_on with
    | refl => exact .refl b
    | @head a c leads _ ih =>
      -- a loop of the graph is no step of the hierarchy
      by_cases loop : a.id = c.id
      · rw [Graph.eq_of_id own leads.ends_mem.2 loop]
        exact ih leads.ends_mem.2
      · exact .step ((mem_children_ofGraph own).2 ⟨loop, leads⟩) (ih leads.ends_mem.2)

theorem children_eq_related (g : Graph) (rule : EdgeRule) (n : Node) :
    (ofGraph g rule).children n = (g.related rule (.singleton n)).minus (.singleton n) := by
  refine NodeSet.ext_toList fun c => ?_
  rw [mem_children_iff, NodeSet.mem_toList_minus, Graph.mem_related_iff, NodeSet.mem_singleton,
    and_comm, ne_comm]
  simp only [NodeSet.mem_singleton]

theorem parents_eq_related (g : Graph) (rule : EdgeRule) (n : Node) :
    (ofGraph g rule).parents n = (g.related rule.inverted (.singleton n)).minus (.singleton n) := by
  rw [parents_eq_children_inverted, children_eq_related]

theorem contains_ofGraph (g : Graph) (rule : EdgeRule) (n : Node) :
    (ofGraph g rule).contains n = g.contains n := by
  rw [Bool.eq_iff_iff, Graph.contains_iff, contains, Std.ExtTreeSet.contains_iff_mem]
  rfl

theorem agrees_with_related (g : Graph) (rule : EdgeRule) :
    let h := ofGraph g rule
    (∀ n, h.children? n =
      if g.contains n then some ((g.related rule (.singleton n)).minus (.singleton n)) else none) ∧
    (∀ n, h.parents? n =
      if g.contains n then some ((g.related rule.inverted (.singleton n)).minus (.singleton n))
      else none) ∧
    (∀ p c, c ∈ h.children p ↔ p ∈ h.parents c) ∧
    (∀ n, n ∈ h.nodes.toList ↔ n ∈ g.nodes) ∧
    ∀ n, n ∈ h.roots.toList ↔
      n ∈ g.nodes ∧ (g.related rule.inverted (.singleton n)).Within (.singleton n) := by
  intro h
  refine ⟨fun n => ?_, fun n => ?_, fun p c => mem_children_comm,
    fun n => Graph.mem_nodeSet_toList, fun n => ?_⟩
  · rw [children?, contains_ofGraph, children_eq_related]
  · rw [parents?, contains_ofGraph, parents_eq_related]
  · have inside : n ∈ h.nodes.toList ↔ n ∈ g.nodes := Graph.mem_nodeSet_toList
    rw [roots, NodeSet.mem_toList_keep, inside, parents_eq_related, NodeSet.isEmpty_minus_iff]

-- Another node right below reaches it again.
def OnCycle (h : Hierarchy) (n : Node) : Prop :=
  ∃ c ∈ (h.children n).toList, c.id ≠ n.id ∧ h.Reaches c n

def Above (h : Hierarchy) (a b : Node) : Prop := ∃ c ∈ (h.children a).toList, h.Reaches c b

theorem Above.trans {h : Hierarchy} {a b c : Node} (first : h.Above a b) (second : h.Above b c) :
    h.Above a c := by
  obtain ⟨m, child, reaches⟩ := first
  obtain ⟨k, next, further⟩ := second
  exact ⟨m, child, reaches.trans (.step next further)⟩

theorem onCycle_of_above (own : n ∈ g.nodes) (above : (ofGraph g rule).Above n n) :
    (ofGraph g rule).OnCycle n := by
  obtain ⟨c, child, reaches⟩ := above
  exact ⟨c, child, ((mem_children_ofGraph own).1 child).1.symm, reaches⟩

theorem exists_parent (own : n ∈ g.nodes) (inner : n ∉ (ofGraph g rule).roots.toList) :
    ∃ p ∈ g.nodes, n ∈ ((ofGraph g rule).children p).toList := by
  have present : n ∈ (ofGraph g rule).nodes :=
    NodeSet.mem_of_mem_toList (Graph.mem_nodeSet_toList.2 own)
  have parents : ((ofGraph g rule).parents n).toList ≠ [] := by
    intro none
    apply inner
    rw [← (owns_roots g rule).mem_iff own, mem_roots, ← Std.ExtTreeSet.isEmpty_toList, none]
    exact ⟨present, rfl⟩
  obtain ⟨p, hp⟩ := List.exists_mem_of_ne_nil _ parents
  have step := (mem_parents_ofGraph own).1 hp
  exact ⟨p, step.2.ends_mem.1, (mem_children_ofGraph step.2.ends_mem.1).2 step⟩

theorem exists_root_or_cycle (own : n ∈ g.nodes) :
    (∃ r ∈ (ofGraph g rule).roots.toList, (ofGraph g rule).Reaches r n) ∨
      ∃ c ∈ g.nodes, (ofGraph g rule).OnCycle c ∧ (ofGraph g rule).Reaches c n := by
  refine or_iff_not_imp_right.2 fun acyclic => ?_
  let ancestors : Set Node := {m | m ∈ g.nodes ∧ (ofGraph g rule).Reaches m n}
  let above (a b : ancestors) : Prop := (ofGraph g rule).Above a b
  have finite : Finite ancestors := (g.nodes.finite_toSet.subset fun _ hm => hm.1).to_subtype
  have transitive : IsTrans ancestors above := ⟨fun _ _ _ first second => first.trans second⟩
  have irreflexive : Std.Irrefl above :=
    ⟨fun a self => acyclic ⟨a, a.2.1, onCycle_of_above a.2.1 self, a.2.2⟩⟩
  obtain ⟨top, -, topmost⟩ := (Finite.wellFounded_of_trans_of_irrefl above).has_min Set.univ
    ⟨⟨n, own, .refl n⟩, trivial⟩
  refine ⟨top, ?_, top.2.2⟩
  apply Classical.byContradiction
  intro inner
  obtain ⟨p, hp, child⟩ := exists_parent top.2.1 inner
  exact topmost ⟨p, hp, .step child top.2.2⟩ trivial ⟨top, child, .refl _⟩

end Hierarchy

end DependencyAtlas
