import DependencyAtlas.Registry

set_option autoImplicit false

namespace DependencyAtlas

namespace Graph

structure Vicinity where
  node : Node
  outgoing : List Edge
  incoming : List Edge
deriving DecidableEq

abbrev Index := Std.ExtTreeMap String Vicinity

namespace Index

def addNode (ix : Index) (n : Node) : Index := ix.insertIfNew n.id ⟨n, [], []⟩

def addEdge (ix : Index) (e : Edge) : Index :=
  (ix.modify e.head.id fun v => { v with outgoing := e :: v.outgoing }).modify e.tail.id
    fun v => { v with incoming := e :: v.incoming }

def of (nodes : List Node) (edges : List Edge) : Index :=
  edges.foldl addEdge (nodes.foldl addNode ∅)

theorem getElem?_addEdges (edges : List Edge) (ix : Index) (id : String) :
    (edges.foldl addEdge ix)[id]? = ix[id]?.map fun v =>
      ⟨v.node, (edges.filter (·.head.id == id)).reverse ++ v.outgoing,
        (edges.filter (·.tail.id == id)).reverse ++ v.incoming⟩ := by
  induction edges generalizing ix with
  | nil => cases h : ix[id]? <;> simp [h]
  | cons e rest ih =>
    rw [List.foldl_cons, ih]
    simp only [addEdge, Std.ExtTreeMap.getElem?_modify]
    by_cases hh : e.head.id = id <;> by_cases ht : e.tail.id = id <;>
      cases hv : ix[id]? <;> simp [hh, ht, hv]

theorem getElem?_addNodes (nodes : List Node) (ix : Index) (id : String) :
    (nodes.foldl addNode ix)[id]?
      = ix[id]?.or ((nodes.find? (·.id == id)).map fun n => ⟨n, [], []⟩) := by
  induction nodes generalizing ix with
  | nil => simp
  | cons n rest ih =>
    rw [List.foldl_cons, ih, addNode, Std.ExtTreeMap.getElem?_insertIfNew, List.find?_cons]
    by_cases h : n.id = id
    · subst h
      cases hv : ix[n.id]? with
      | none =>
        have : n.id ∉ ix := by simpa using hv
        simp [this]
      | some v =>
        have : n.id ∈ ix := Std.ExtTreeMap.mem_iff_isSome_getElem?.2 (by simp [hv])
        simp [this]
    · simp [h, beq_eq_false_iff_ne.2]

theorem getElem?_of (nodes : List Node) (edges : List Edge) (id : String) :
    (of nodes edges)[id]? = (nodes.find? (·.id == id)).map fun n =>
      ⟨n, (edges.filter (·.head.id == id)).reverse, (edges.filter (·.tail.id == id)).reverse⟩ := by
  rw [of, getElem?_addEdges, getElem?_addNodes]
  cases nodes.find? (·.id == id) <;> simp

end Index

end Graph

-- The index is a function of the lists, so that these alone give the graph.
structure Graph where
  nodes : List Node
  edges : List Edge
  ids_nodup : (nodes.map (·.id)).Nodup
  edges_nodup : edges.Nodup
  ends_mem : ∀ e ∈ edges, e.head ∈ nodes ∧ e.tail ∈ nodes
  index : Graph.Index := Graph.Index.of nodes edges
  index_eq : index = Graph.Index.of nodes edges := by rfl

namespace Graph

@[ext] theorem ext {g h : Graph} (nodes : g.nodes = h.nodes) (edges : g.edges = h.edges) :
    g = h := by
  cases g with
  | mk _ _ _ _ _ _ hg => cases h with
    | mk _ _ _ _ _ _ hh =>
      subst hg hh
      simp_all

def empty : Graph where
  nodes := []
  edges := []
  ids_nodup := List.nodup_nil
  edges_nodup := List.nodup_nil
  ends_mem := by simp

instance : Inhabited Graph := ⟨empty⟩

def nodeCount (g : Graph) : Nat := g.nodes.length

def edgeCount (g : Graph) : Nat := g.edges.length

def isEmpty (g : Graph) : Bool := g.nodes.isEmpty

def node? (g : Graph) (id : String) : Option Node := g.index[id]?.map (·.node)

def contains (g : Graph) (n : Node) : Bool := g.index.contains n.id

def nodeSet (g : Graph) : NodeSet := .ofNodes g.nodes

def relations (g : Graph) : Std.ExtTreeSet Relation := .ofList (g.edges.map (·.relation))

def outgoing (g : Graph) (n : Node) : List Edge :=
  match g.index[n.id]? with
  | some v => v.outgoing
  | none => []

def incoming (g : Graph) (n : Node) : List Edge :=
  match g.index[n.id]? with
  | some v => v.incoming
  | none => []

-- A loop is listed twice.
def incident (g : Graph) (n : Node) : List Edge := g.outgoing n ++ g.incoming n

def neighbours (g : Graph) (rule : EdgeRule) (n : Node) : List Node :=
  ((g.outgoing n).filter (rule.followsForward ·.relation)).map (·.tail)
    ++ ((g.incoming n).filter (rule.followsBackward ·.relation)).map (·.head)

def related (g : Graph) (rule : EdgeRule) (input : NodeSet) : NodeSet :=
  .ofNodes (input.toList.flatMap (g.neighbours rule))

theorem node?_eq (g : Graph) (id : String) : g.node? id = g.nodes.find? (·.id == id) := by
  rw [node?, g.index_eq, Index.getElem?_of]
  cases g.nodes.find? (·.id == id) <;> rfl

theorem find?_nodeSet (g : Graph) (id : String) : g.nodeSet.find? id = g.node? id := by
  rw [nodeSet, NodeSet.find?_ofNodes, node?_eq]

theorem eq_of_id {g : Graph} {a b : Node} (ha : a ∈ g.nodes) (hb : b ∈ g.nodes)
    (h : a.id = b.id) : a = b := by
  have := g.ids_nodup
  generalize g.nodes = nodes at *
  induction nodes with
  | nil => cases ha
  | cons n rest ih =>
    rw [List.map_cons, List.nodup_cons] at this
    rcases List.mem_cons.1 ha with rfl | inA <;> rcases List.mem_cons.1 hb with rfl | inB
    · rfl
    · exact absurd (h ▸ List.mem_map_of_mem inB) this.1
    · exact absurd (h ▸ List.mem_map_of_mem inA) this.1
    · exact ih inA inB this.2

theorem node?_eq_some_iff {g : Graph} {id : String} {n : Node} :
    g.node? id = some n ↔ n ∈ g.nodes ∧ n.id = id := by
  rw [node?_eq]
  constructor
  · intro h
    exact ⟨List.mem_of_find?_eq_some h, by simpa using List.find?_some h⟩
  · rintro ⟨h, rfl⟩
    cases found : g.nodes.find? (·.id == n.id) with
    | none => simpa using List.find?_eq_none.1 found n h
    | some m =>
      have eq : m.id = n.id := by simpa using List.find?_some found
      rw [eq_of_id (List.mem_of_find?_eq_some found) h eq]

theorem outgoing_eq (g : Graph) (n : Node) :
    g.outgoing n = (g.edges.filter (·.head.id == n.id)).reverse := by
  rw [outgoing, g.index_eq, Index.getElem?_of]
  cases found : g.nodes.find? (·.id == n.id) with
  | some m => rfl
  | none =>
    symm
    simp only [Option.map_none, List.reverse_eq_nil_iff, List.filter_eq_nil_iff]
    intro e he
    exact List.find?_eq_none.1 found e.head (g.ends_mem e he).1

theorem incoming_eq (g : Graph) (n : Node) :
    g.incoming n = (g.edges.filter (·.tail.id == n.id)).reverse := by
  rw [incoming, g.index_eq, Index.getElem?_of]
  cases found : g.nodes.find? (·.id == n.id) with
  | some m => rfl
  | none =>
    symm
    simp only [Option.map_none, List.reverse_eq_nil_iff, List.filter_eq_nil_iff]
    intro e he
    exact List.find?_eq_none.1 found e.tail (g.ends_mem e he).2

theorem mem_neighbours {g : Graph} {rule : EdgeRule} {a b : Node} :
    b ∈ g.neighbours rule a ↔
      (∃ e ∈ g.edges, rule.followsForward e.relation ∧ e.head.id = a.id ∧ e.tail = b) ∨
      (∃ e ∈ g.edges, rule.followsBackward e.relation ∧ e.tail.id = a.id ∧ e.head = b) := by
  simp only [neighbours, outgoing_eq, incoming_eq, List.mem_append, List.mem_map, List.mem_filter,
    List.mem_reverse, beq_iff_eq]
  grind

theorem node?_of_find?_related {g : Graph} {rule : EdgeRule} {input : NodeSet} {id : String}
    {n : Node} (h : (g.related rule input).find? id = some n) : g.node? id = some n := by
  rw [related, NodeSet.find?_ofNodes] at h
  obtain ⟨a, -, ha⟩ := List.mem_flatMap.1 (List.mem_of_find?_eq_some h)
  have eq : n.id = id := by simpa using List.find?_some h
  rcases mem_neighbours.1 ha with ⟨e, he, -, -, rfl⟩ | ⟨e, he, -, -, rfl⟩
  · exact node?_eq_some_iff.2 ⟨(g.ends_mem e he).2, eq⟩
  · exact node?_eq_some_iff.2 ⟨(g.ends_mem e he).1, eq⟩

def subgraph (g : Graph) (keep : NodeSet) : Graph where
  nodes := g.nodes.filter (keep.contains ·)
  edges := g.edges.filter fun e => keep.contains e.head && keep.contains e.tail
  ids_nodup := g.ids_nodup.sublist (List.filter_sublist.map _)
  edges_nodup := g.edges_nodup.sublist List.filter_sublist
  ends_mem := by
    intro e he
    simp only [List.mem_filter, Bool.and_eq_true] at he ⊢
    exact ⟨⟨(g.ends_mem e he.1).1, he.2.1⟩, ⟨(g.ends_mem e he.1).2, he.2.2⟩⟩

end Graph

end DependencyAtlas
