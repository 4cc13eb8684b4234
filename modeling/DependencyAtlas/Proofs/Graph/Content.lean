import DependencyAtlas.Hierarchy
import DependencyAtlas.Path.Evaluation
import DependencyAtlas.Proofs.Filing
import Mathlib.Data.List.ProdSigma

set_option autoImplicit false

namespace DependencyAtlas

namespace Graph

variable {g h : Graph} {rule : EdgeRule}

theorem mem_nodes_of_mem_neighbours {a b : Node} (step : b ∈ g.neighbours rule a) :
    b ∈ g.nodes := by
  rcases mem_neighbours.1 step with ⟨e, he, -, -, rfl⟩ | ⟨e, he, -, -, rfl⟩
  · exact (g.ends_mem e he).2
  · exact (g.ends_mem e he).1

theorem find?_related_eq_some_iff {s : NodeSet} {id : String} {n : Node} :
    (g.related rule s).find? id = some n ↔
      n.id = id ∧ ∃ a ∈ s.toList, n ∈ g.neighbours rule a := by
  have listed {m : Node} (hm : m ∈ s.toList.flatMap (g.neighbours rule)) : m ∈ g.nodes := by
    obtain ⟨a, -, step⟩ := List.mem_flatMap.1 hm
    exact mem_nodes_of_mem_neighbours step
  rw [related, NodeSet.find?_ofNodes, find?_eq_some_iff_of_unique, List.mem_flatMap, beq_iff_eq,
    and_comm]
  intro a ha b hb first second
  exact eq_of_id (listed ha) (listed hb) ((eq_of_beq first).trans (eq_of_beq second).symm)

-- One step is read off the edges alone.
theorem related_eq (same : ∀ e, e ∈ g.edges ↔ e ∈ h.edges) (rule : EdgeRule) (s : NodeSet) :
    g.related rule s = h.related rule s := by
  have step (a b : Node) : b ∈ g.neighbours rule a ↔ b ∈ h.neighbours rule a := by
    simp only [mem_neighbours, same]
  refine NodeSet.ext fun id => Option.ext fun n => ?_
  simp only [find?_related_eq_some_iff, step]

structure SameContent (g h : Graph) : Prop where
  node? : ∀ id, g.node? id = h.node? id
  mem_edges : ∀ e, e ∈ g.edges ↔ e ∈ h.edges

theorem SameContent.nodeSet_eq (same : g.SameContent h) : g.nodeSet = h.nodeSet := by
  refine NodeSet.ext fun id => ?_
  rw [find?_nodeSet, find?_nodeSet, same.node?]

end Graph

namespace Path

variable {g h : Graph}

namespace Operator

variable {a c : Operator g} {b d : Operator h}

-- The bound sees to it that the rounds end, and what they find does not depend on it.
theorem rounds_eq (same : ∀ s, a.apply s = b.apply s) (again : Bool) (bound limit input : NodeSet)
    (found : Outcome) (count : Nat) (hg hi hf kg ki kf) :
    a.rounds again bound input found count hg hi hf =
      b.rounds again limit input found count kg ki kf := by
  unfold rounds
  simp only [← same input]
  split
  · exact rounds_eq same again bound limit _ _ _ _ _ _ _ _ _
  · rfl
termination_by bound.size - found.nodes.size
decreasing_by
  have := (NodeSet.Within.join hf (a.within hi hg)).size_le
  grind

theorem andThen_eq (first : ∀ s, a.apply s = b.apply s) (second : ∀ s, c.apply s = d.apply s)
    (s : NodeSet) : (a.andThen c).apply s = (b.andThen d).apply s := by
  simp only [andThen, first, second]

theorem accumulated_eq (same : ∀ s, a.apply s = b.apply s) (s : NodeSet) :
    a.accumulated.apply s = b.accumulated.apply s := by
  simp only [accumulated, same]

theorem term_eq (same : ∀ s, a.apply s = b.apply s) (name : String) (again : Bool) (s : NodeSet) :
    (a.term name again).apply s = (b.term name again).apply s := by
  have rounds : a.run again s = b.run again s := rounds_eq same again _ _ _ _ _ _ _ _ _ _ _
  simp only [term, rounds]

end Operator

mutual

theorem Selector.apply_eq (same : ∀ x, x ∈ g.edges ↔ x ∈ h.edges) :
    (x : Selector) → ∀ s, (x.operator g).apply s = (x.operator h).apply s
  | .edges _ rule => fun s => by
    rw [Selector.operator, Selector.operator, Operator.follow, Operator.follow]
    exact congrArg (Outcome.mk · #[]) (Graph.related_eq same rule s)
  | .kinds _ => fun s => by
    rw [Selector.operator, Selector.operator]
    rfl
  | .path e => fun s => by
    rw [Selector.operator, Selector.operator]
    exact e.apply_eq same s

theorem Term.apply_eq (same : ∀ x, x ∈ g.edges ↔ x ∈ h.edges) :
    (t : Term) → ∀ s, (t.operator g).apply s = (t.operator h).apply s
  | .mk x r _ => by
    rw [Term.operator, Term.operator]
    exact Operator.term_eq (x.apply_eq same) x.describe r

theorem Expression.apply_eq (same : ∀ x, x ∈ g.edges ↔ x ∈ h.edges) :
    (e : Expression) → ∀ s, (e.operator g).apply s = (e.operator h).apply s
  | .mk _ terms => by
    rw [Expression.operator, Expression.operator]
    exact pipeline_eq same terms

theorem pipeline_eq (same : ∀ x, x ∈ g.edges ↔ x ∈ h.edges) :
    (terms : List Term) → ∀ s, (pipeline g terms).apply s = (pipeline h terms).apply s
  | [] => fun s => by
    rw [pipeline, pipeline]
    rfl
  | .mk x r true :: rest => by
    rw [pipeline, pipeline]
    exact Operator.andThen_eq (Operator.accumulated_eq (Term.apply_eq same (.mk x r true)))
      (pipeline_eq same rest)
  | .mk x r false :: rest => by
    rw [pipeline, pipeline]
    exact Operator.andThen_eq (Term.apply_eq same (.mk x r false)) (pipeline_eq same rest)

end

theorem Expression.select_eq_of_edges (same : ∀ x, x ∈ g.edges ↔ x ∈ h.edges) (e : Expression)
    (input : NodeSet) : e.select g input = e.select h input :=
  congrArg Outcome.nodes (e.apply_eq same input)

theorem Expression.select_eq (same : g.SameContent h) (e : Expression) (input : NodeSet) :
    e.select g input = e.select h input :=
  e.select_eq_of_edges same.mem_edges input

end Path

namespace Neighbours

variable {pairs others : List (Node × Node)}

theorem isSome_getElem?_foldl_add (pairs : List (Node × Node)) (m : Neighbours) (a : String) :
    ((pairs.foldl add m)[a]?).isSome ↔ (m[a]?).isSome ∨ ∃ p ∈ pairs, p.1.id = a := by
  induction pairs generalizing m with
  | nil => simp
  | cons p rest ih =>
    rw [List.foldl_cons, ih, add, Std.ExtTreeMap.getElem?_alter]
    by_cases here : p.1.id = a <;> simp [here]

theorem getElem?_eq (m : Neighbours) (a : String) :
    m[a]? = if (m[a]?).isSome then some (m.beside a) else none := by
  unfold beside
  cases m[a]? <;> rfl

def Determined (pairs : List (Node × Node)) : Prop :=
  ∀ p ∈ pairs, ∀ q ∈ pairs, p.2.id = q.2.id → p.2 = q.2

theorem find?_beside_of_eq_some_iff (determined : Determined pairs) {a b : String} {n : Node} :
    ((of pairs).beside a).find? b = some n ↔
      ∃ p ∈ pairs, (p.1.id == a && p.2.id == b) ∧ p.2 = n := by
  rw [find?_beside_of, map_find?_eq_some_iff]
  intro p hp q hq first second
  simp only [Bool.and_eq_true, beq_iff_eq] at first second
  exact determined p hp q hq (first.2.trans second.2.symm)

theorem of_eq (determined : Determined pairs) (same : ∀ p, p ∈ pairs ↔ p ∈ others) :
    of pairs = of others := by
  have unique : Determined others := fun p hp q hq =>
    determined p ((same p).2 hp) q ((same q).2 hq)
  refine Std.ExtTreeMap.ext_getElem? fun a => ?_
  have beside : (of pairs).beside a = (of others).beside a := by
    refine NodeSet.ext fun b => Option.ext fun n => ?_
    simp only [find?_beside_of_eq_some_iff determined, find?_beside_of_eq_some_iff unique, same]
  have present : ((of pairs)[a]?).isSome = ((of others)[a]?).isSome := by
    rw [Bool.eq_iff_iff, of, of, isSome_getElem?_foldl_add, isSome_getElem?_foldl_add]
    simp only [same]
  rw [getElem?_eq, getElem?_eq (of others), beside, present]

end Neighbours

namespace Hierarchy

theorem eq_of_sets {h k : Hierarchy} (nodes : h.nodes = k.nodes)
    (children : h.childSets = k.childSets) (parents : h.parentSets = k.parentSets) : h = k := by
  cases h
  cases k
  simp_all

variable {g h : Graph}

theorem ends_of_mem_pairs {rule : EdgeRule} {p : Node × Node} (hp : p ∈ pairs g rule) :
    p.1 ∈ g.nodes ∧ p.2 ∈ g.nodes := by
  obtain ⟨-, e, he, ⟨-, rfl⟩ | ⟨-, rfl⟩⟩ := mem_pairs.1 hp
  · exact g.ends_mem e he
  · exact (g.ends_mem e he).symm

theorem determined_pairs (g : Graph) (rule : EdgeRule) : Neighbours.Determined (pairs g rule) :=
  fun _ hp _ hq => Graph.eq_of_id (ends_of_mem_pairs hp).2 (ends_of_mem_pairs hq).2

theorem mem_pairs_inverted {rule : EdgeRule} (p : Node × Node) :
    p ∈ pairs g rule.inverted ↔ p ∈ (pairs g rule).map Prod.swap := by
  obtain ⟨a, b⟩ := p
  rw [List.mem_map_swap, mem_pairs, mem_pairs]
  simp only [Prod.mk.injEq, EdgeRule.inverted, EdgeRule.followsForward, EdgeRule.followsBackward]
  grind

-- The pairs that put parents beside children are those of the inverted rule.
theorem of_pairs_swapped (g : Graph) (rule : EdgeRule) :
    Neighbours.of ((pairs g rule).map Prod.swap) = .of (pairs g rule.inverted) :=
  (Neighbours.of_eq (determined_pairs g rule.inverted) mem_pairs_inverted).symm

theorem ofGraph_inverted (g : Graph) (rule : EdgeRule) :
    ofGraph g rule.inverted = (ofGraph g rule).inverted :=
  eq_of_sets rfl (of_pairs_swapped g rule).symm (of_pairs_swapped g rule.inverted)

theorem ofGraph_eq (same : g.SameContent h) (rule : EdgeRule) : ofGraph g rule = ofGraph h rule := by
  have pairs_iff (rule : EdgeRule) (p : Node × Node) : p ∈ pairs g rule ↔ p ∈ pairs h rule := by
    simp only [mem_pairs, same.mem_edges]
  have beside (rule : EdgeRule) : Neighbours.of (pairs g rule) = .of (pairs h rule) :=
    Neighbours.of_eq (determined_pairs g rule) (pairs_iff rule)
  refine eq_of_sets same.nodeSet_eq (beside rule) ?_
  exact (of_pairs_swapped g rule).trans ((beside rule.inverted).trans (of_pairs_swapped h rule).symm)

end Hierarchy

end DependencyAtlas
