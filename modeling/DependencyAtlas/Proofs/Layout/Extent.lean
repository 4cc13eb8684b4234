import DependencyAtlas.Layout.Runner
import DependencyAtlas.Proofs.Hierarchy.Steps
import DependencyAtlas.Proofs.Layout.Radial
import DependencyAtlas.Proofs.Path.Converse

set_option autoImplicit false

namespace DependencyAtlas

namespace Path

def Expression.walk (label : Option String) (name : String) (rule : EdgeRule) : Expression :=
  .mk label [.mk (.edges name rule) true true]

theorem relates_walk (g : Graph) (label : Option String) (name : String) (rule : EdgeRule) :
    (Expression.walk label name rule).Relates g = Relation.ReflTransGen (g.Leads rule) := by
  rw [Expression.walk, Expression.Relates, related_singleton, Term.Carries, Term.Relates,
    Selector.Relates, Relation.reflGen_transGen]

end Path

namespace Layout

variable {g : Graph}

theorem mem_ids_select_walk_iff {roots : NodeSet} (own : g.Owns roots) (rule : EdgeRule)
    (label : Option String) (name id : String) :
    id ∈ ((Path.Expression.walk label name rule).select g roots).ids ↔
      (Hierarchy.ofGraph g rule).ReachedFrom roots id := by
  have images := (Path.Expression.walk label name rule).images g roots own
  rw [Path.relates_walk] at images
  constructor
  · intro listed
    obtain ⟨n, hn, same⟩ := List.mem_map.1 listed
    obtain ⟨r, hr, walk⟩ := (images n).1 hn
    exact ⟨r, hr, n, (Hierarchy.reaches_ofGraph_iff (own r hr)).2 walk, same⟩
  · intro reached
    obtain ⟨r, hr, n, reaches, same⟩ := reached
    have walk := (Hierarchy.reaches_ofGraph_iff (own r hr)).1 reaches
    exact List.mem_map.2 ⟨n, (images n).2 ⟨r, hr, walk⟩, same⟩

theorem placed_iff_walked (g : Graph) (rule : EdgeRule) (label : Option String) (name : String)
    {α : Type} [Mul α] [Div α] [Coordinate α] (spacing : Linear.Spacing α) (ring : α) (id : String) :
    let h := Hierarchy.ofGraph g rule
    let walked := (Path.Expression.walk label name rule).select g h.roots
    (((Linear.positions spacing h)[id]?).isSome ↔ id ∈ walked.ids) ∧
      (((Radial.positions ring h)[id]?).isSome ↔ id ∈ walked.ids) := by
  intro h walked
  have found : id ∈ walked.ids ↔ h.ReachedFrom h.roots id :=
    mem_ids_select_walk_iff (Hierarchy.owns_roots g rule) rule label name id
  rw [found]
  exact ⟨(Linear.covers_slots h).isSome_draw_iff (Linear.point spacing) id,
    (Radial.covers_slots h).isSome_draw_iff (Radial.point ring (Radial.circumference h)) id⟩

theorem mem_positions_iff (s : Settings) (h : Hierarchy) (id : String) :
    id ∈ s.positions h ↔ h.ReachedFrom h.roots id := by
  rw [Std.ExtTreeMap.mem_iff_isSome_getElem?, Settings.positions]
  cases s.kind with
  | linear => exact (Linear.covers_slots h).isSome_draw_iff (Linear.point _) id
  | radial => exact (Radial.covers_slots h).isSome_draw_iff (Radial.point _ _) id

variable {rule : EdgeRule}

theorem positions_finish {s : Settings} {r : Runner} (made : Runner.make s g rule = .ok r) :
    r.finish.1.positions = s.positions (.ofGraph g rule) := by
  obtain ⟨_, -, started⟩ := bind_eq_ok_iff.1 made
  rw [← Except.ok.inj started]
  rfl

-- Counted by id: positions are kept by id, and no two nodes of a graph share one.
theorem size_add_unplaced {α : Type} {p : Positions α} (inside : ∀ id ∈ p, ∃ n ∈ g.nodes, n.id = id) :
    p.size + (g.nodes.filter fun n => !p.contains n.id).length = g.nodeCount := by
  have nodup : ((g.nodes.filter fun n => p.contains n.id).map (·.id)).Nodup :=
    g.ids_nodup.sublist (List.filter_sublist.map _)
  have same : p.keys.Perm ((g.nodes.filter fun n => p.contains n.id).map (·.id)) := by
    refine (List.perm_ext_iff_of_nodup Std.ExtTreeMap.nodup_keys nodup).2 fun id => ?_
    rw [Std.ExtTreeMap.mem_keys, List.mem_map]
    constructor
    · intro placed
      obtain ⟨n, hn, rfl⟩ := inside id placed
      exact ⟨n, List.mem_filter.2 ⟨hn, placed⟩, rfl⟩
    · intro listed
      obtain ⟨n, hn, rfl⟩ := listed
      exact (List.mem_filter.1 hn).2
  have placed : p.size = (g.nodes.filter fun n => p.contains n.id).length := by
    rw [← Std.ExtTreeMap.length_keys, same.length_eq, List.length_map]
  rw [placed, Graph.nodeCount, ← List.length_eq_length_filter_add]

theorem placed_or_below_cycle (s : Settings) {n : Node} (own : n ∈ g.nodes) :
    n.id ∈ s.positions (.ofGraph g rule) ∨
      ∃ c ∈ g.nodes, (Hierarchy.ofGraph g rule).OnCycle c ∧ (Hierarchy.ofGraph g rule).Reaches c n := by
  rw [mem_positions_iff]
  refine (Hierarchy.exists_root_or_cycle own).imp_left fun root => ?_
  obtain ⟨r, hr, reaches⟩ := root
  exact ⟨r, hr, n, reaches, rfl⟩

-- Without cycles nothing is left out, and otherwise only what is on a cycle or below one.
theorem unplaced_below_cycle (g : Graph) (rule : EdgeRule) (s : Settings) :
    let h := Hierarchy.ofGraph g rule
    let p := s.positions h
    (∀ r, Runner.make s g rule = .ok r → r.finish.1.positions = p) ∧
      p.size ≤ g.nodeCount ∧
      g.nodeCount - p.size = (g.nodes.filter fun n => !p.contains n.id).length ∧
      ((∀ c ∈ g.nodes, ¬ h.OnCycle c) → ∀ n ∈ g.nodes, n.id ∈ p) ∧
      ∀ n ∈ g.nodes, n.id ∉ p → ∃ c ∈ g.nodes, h.OnCycle c ∧ h.Reaches c n := by
  intro h p
  have inside : ∀ id ∈ p, ∃ n ∈ g.nodes, n.id = id := by
    intro id placed
    obtain ⟨r, hr, n, reaches, same⟩ := (mem_positions_iff s h id).1 placed
    exact ⟨n, Hierarchy.mem_nodes_of_reaches (Hierarchy.owns_roots g rule r hr) reaches, same⟩
  have counted := size_add_unplaced inside
  refine ⟨fun r => positions_finish, by omega, by omega, ?_, ?_⟩
  · intro acyclic n own
    refine (placed_or_below_cycle s own).resolve_right fun below => ?_
    obtain ⟨c, hc, cycle, -⟩ := below
    exact acyclic c hc cycle
  · intro n own unplaced
    exact (placed_or_below_cycle s own).resolve_left unplaced

def uses (a b : String) : Edge := ⟨.named a, .named b, ⟨"uses", "used by"⟩⟩

-- A loop, which is no cycle of the hierarchy.
def eyelet : Graph where
  nodes := [.named "a", .named "b"]
  edges := [uses "a" "b", uses "b" "b"]
  ids_nodup := by decide
  edges_nodup := by decide
  ends_mem := by decide

def whirl : Graph where
  nodes := [.named "a", .named "b", .named "c", .named "d", .named "e"]
  edges := [uses "a" "b", uses "c" "d", uses "d" "c", uses "d" "e"]
  ids_nodup := by decide
  edges_nodup := by decide
  ends_mem := by decide

theorem eyelet_acyclic : ∀ c ∈ eyelet.nodes, ¬ (Hierarchy.ofGraph eyelet (.along .all)).OnCycle c := by
  intro n own cycle
  obtain ⟨c, child, other, reaches⟩ := cycle
  have leaf : (Hierarchy.ofGraph eyelet (.along .all)).isLeaf (.named "b") := by decide +kernel
  have single : ∀ e ∈ eyelet.edges, e.head.id ≠ e.tail.id → e = uses "a" "b" := by decide
  obtain ⟨apart, e, he, ⟨-, rfl, rfl⟩ | ⟨against, -⟩⟩ := (Hierarchy.mem_children_ofGraph own).1 child
  · rw [single e he apart] at other reaches
    exact other (congrArg Node.id (reaches.eq_of_leaf leaf))
  · cases against

theorem eyelet_placed_whirl_unplaced :
    (∀ c ∈ eyelet.nodes, ¬ (Hierarchy.ofGraph eyelet (.along .all)).OnCycle c) ∧
      .named "b" ∈ eyelet.nodes ∧
      "b" ∈ ({ kind := .radial } : Settings).positions (.ofGraph eyelet (.along .all)) ∧
      .named "e" ∈ whirl.nodes ∧
      "e" ∉ ({} : Settings).positions (.ofGraph whirl (.along .all)) ∧
      (∃ c ∈ whirl.nodes, (Hierarchy.ofGraph whirl (.along .all)).OnCycle c ∧
        (Hierarchy.ofGraph whirl (.along .all)).Reaches c (.named "e")) ∧
      ∃ r, Runner.make {} whirl (.along .all) = .ok r ∧
        r.finish.1.positions = ({} : Settings).positions (.ofGraph whirl (.along .all)) := by
  have bottom : .named "b" ∈ eyelet.nodes := by decide
  have last : .named "e" ∈ whirl.nodes := by decide
  have slots : Linear.slots (.ofGraph whirl (.along .all)) =
      [⟨.named "b", 1, 0⟩, ⟨.named "a", 0, 0⟩] := by cbv
  have unplaced : "e" ∉ ({} : Settings).positions (.ofGraph whirl (.along .all)) := by
    rw [mem_positions_iff, ← (Linear.covers_slots _).mem_iff, slots]
    decide
  have made : Runner.make {} whirl (.along .all) =
      .ok { settings := {}, hierarchy := .ofGraph whirl (.along .all) } := rfl
  obtain ⟨-, -, -, placed, -⟩ := unplaced_below_cycle eyelet (.along .all) { kind := .radial }
  obtain ⟨finished, -, -, -, below⟩ := unplaced_below_cycle whirl (.along .all) {}
  exact ⟨eyelet_acyclic, bottom, placed eyelet_acyclic _ bottom, last, unplaced,
    below _ last unplaced, _, made, finished _ made⟩

end Layout

end DependencyAtlas
