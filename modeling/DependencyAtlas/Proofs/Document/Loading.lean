import DependencyAtlas.Document.Rejection
import DependencyAtlas.Proofs.Graph.Builder
import DependencyAtlas.Proofs.Registry

set_option autoImplicit false

namespace DependencyAtlas.Document.GraphDocument

open DependencyAtlas.Graph (Builder)

variable {d : GraphDocument} {reg declared : Registry} {b : Builder} {links : List Link} {g : Graph}

-- The phases before the graph is built, with what each gives to the next.
structure Run (d : GraphDocument) (reg declared : Registry) (b : Builder) (links : List Link) :
    Prop where
  relations : (d.relations.map RelationEntry.relation).foldlM Registry.register reg = .ok declared
  nodes : (d.nodes.map NodeEntry.node).foldlM Builder.add .empty = .ok b
  edges : d.edges.mapM (link declared) = .ok links

theorem declare_eq_iff {entries : List RelationEntry} :
    declare reg entries = (declared, none) ↔
      (entries.map RelationEntry.relation).foldlM Registry.register reg = .ok declared := by
  induction entries generalizing reg with
  | nil => simp [declare, pure, Except.pure]
  | cons r rest ih =>
    rw [List.map_cons, List.foldlM_cons, bind_eq_ok_iff, declare]
    split
    · next next registered => simp [registered, ih]
    · next conflict => simp [conflict]

theorem link_eq_ok_iff {x : EdgeEntry} {l : Link} :
    link reg x = .ok l ↔ ∃ r, reg.relation? x.relation = some r ∧ l = ⟨x.head, x.tail, r⟩ := by
  unfold link Registry.require
  cases reg.relation? x.relation <;> simp [eq_comm]

theorem graph_eq_ok_iff :
    d.graph reg = .ok g ↔ ∃ b links,
      (d.nodes.map NodeEntry.node).foldlM Builder.add .empty = .ok b ∧
        d.edges.mapM (link reg) = .ok links ∧ (links.foldl Builder.connect b).build = .ok g := by
  simp only [graph, bind_eq_ok_iff, mapError_eq_ok_iff, exists_and_left]

theorem load_eq_ok_iff :
    (d.load reg).result = .ok g ↔ ∃ declared b links,
      d.Run reg declared b links ∧ (links.foldl Builder.connect b).build = .ok g := by
  have result : (d.load reg).result = .ok g ↔ ∃ declared,
      declare reg d.relations = (declared, none) ∧ d.graph declared = .ok g := by
    unfold load
    split
    · next conflict => simp [conflict]
    · next declared registered => simp [registered]
  rw [result]
  simp only [declare_eq_iff, graph_eq_ok_iff]
  constructor
  · intro loaded
    obtain ⟨declared, relations, b, links, nodes, edges, built⟩ := loaded
    exact ⟨declared, b, links, ⟨relations, nodes, edges⟩, built⟩
  · intro loaded
    obtain ⟨declared, b, links, run, built⟩ := loaded
    exact ⟨declared, run.relations, b, links, run.nodes, run.edges, built⟩

theorem exists_declared_iff :
    (∃ declared, (d.relations.map RelationEntry.relation).foldlM Registry.register reg
      = .ok declared) ↔ d.RelationsAgree reg := by
  rw [Registry.filing.foldlM_iff, RelationsAgree]
  simp only [List.forall_mem_map, Agrees, RelationEntry.relation]

theorem exists_nodes_iff :
    (∃ b, (d.nodes.map NodeEntry.node).foldlM Builder.add .empty = .ok b) ↔ d.NodesAgree := by
  rw [Builder.filing.foldlM_iff, NodesAgree]
  simp [Agrees, Builder.empty, NodeEntry.node]

theorem exists_links_iff
    (registered : (d.relations.map RelationEntry.relation).foldlM Registry.register reg
      = .ok declared) :
    (∃ links, d.edges.mapM (link declared) = .ok links) ↔ d.RelationsKnown reg := by
  have known (name : String) : (declared.relation? name).isSome ↔
      (reg.relation? name).isSome ∨ ∃ r ∈ d.relations, r.name = name := by
    rw [Registry.filing.isSome_look_foldlM registered, List.map_map, List.mem_map]
    rfl
  have linked (x : EdgeEntry) :
      (∃ l, link declared x = .ok l) ↔ (declared.relation? x.relation).isSome := by
    unfold link Registry.require
    cases declared.relation? x.relation <;> simp
  simp only [exists_mapM_iff, linked, known, RelationsKnown]

theorem known_connected (b : Builder) (links : List Link) :
    (links.foldl Builder.connect b).known = b.known := by
  rw [Builder.foldl_connect]

theorem node?_of_connected (built : (links.foldl Builder.connect b).build = .ok g) (id : String) :
    g.node? id = b.known.find? id := by
  rw [Builder.node?_of_build built, known_connected]

namespace Run

theorem mem_links_iff (run : d.Run reg declared b links) (l : Link) :
    l ∈ links ↔ ∃ x ∈ d.edges,
      declared.relation? x.relation = some l.relation ∧ x.head = l.head ∧ x.tail = l.tail := by
  simp only [mem_of_mapM run.edges, link_eq_ok_iff]
  cases l
  grind

theorem links_connected (run : d.Run reg declared b links) :
    (links.foldl Builder.connect b).links.toList = links := by
  rw [Builder.foldl_connect, Builder.links_foldlM_add run.nodes]
  simp [Builder.empty]

theorem ends_known_iff (run : d.Run reg declared b links) :
    (∀ l ∈ links, (b.known.find? l.head).isSome ∧ (b.known.find? l.tail).isSome) ↔
      d.EndsDeclared := by
  have known (id : String) : (b.known.find? id).isSome ↔ ∃ n ∈ d.nodes, n.id = id := by
    rw [Builder.filing.isSome_look_foldlM run.nodes, List.map_map, List.mem_map]
    simp [Builder.empty, NodeEntry.node]
  simp only [known, EndsDeclared]
  constructor
  · intro ends x hx
    obtain ⟨l, linked⟩ := exists_mapM_iff.1 ⟨links, run.edges⟩ x hx
    obtain ⟨r, -, rfl⟩ := link_eq_ok_iff.1 linked
    exact ends _ ((mem_of_mapM run.edges _).2 ⟨x, hx, linked⟩)
  · intro ends l hl
    obtain ⟨x, hx, -, head, tail⟩ := (run.mem_links_iff l).1 hl
    rw [← head, ← tail]
    exact ends x hx

theorem exists_graph_iff (run : d.Run reg declared b links) :
    (∃ g, (links.foldl Builder.connect b).build = .ok g) ↔ d.EndsDeclared := by
  rw [Builder.exists_build_iff, run.links_connected, known_connected, run.ends_known_iff]

theorem mem_edges_iff (run : d.Run reg declared b links)
    (built : (links.foldl Builder.connect b).build = .ok g) (x : Edge) :
    x ∈ g.edges ↔ ∃ y ∈ d.edges, declared.relation? y.relation = some x.relation ∧
      g.node? y.head = some x.head ∧ g.node? y.tail = some x.tail := by
  rw [Builder.mem_edges_of_build built, run.links_connected]
  constructor
  · intro linked
    obtain ⟨l, hl, head, tail, relation⟩ := linked
    obtain ⟨y, hy, named, first, second⟩ := (run.mem_links_iff l).1 hl
    exact ⟨y, hy, relation ▸ named, first ▸ head, second ▸ tail⟩
  · intro listed
    obtain ⟨y, hy, named, head, tail⟩ := listed
    exact ⟨⟨y.head, y.tail, x.relation⟩, (run.mem_links_iff _).2 ⟨y, hy, named, rfl, rfl⟩,
      head, tail, rfl⟩

end Run

theorem exists_load_iff : (∃ g, (d.load reg).result = .ok g) ↔ d.WellFormed reg := by
  simp only [load_eq_ok_iff]
  constructor
  · intro loaded
    obtain ⟨g, declared, b, links, run, built⟩ := loaded
    exact ⟨exists_declared_iff.1 ⟨declared, run.relations⟩, exists_nodes_iff.1 ⟨b, run.nodes⟩,
      (exists_links_iff run.relations).1 ⟨links, run.edges⟩, run.exists_graph_iff.1 ⟨g, built⟩⟩
  · intro ok
    obtain ⟨declared, relations⟩ := exists_declared_iff.2 ok.relationsAgree
    obtain ⟨b, nodes⟩ := exists_nodes_iff.2 ok.nodesAgree
    obtain ⟨links, edges⟩ := (exists_links_iff relations).2 ok.relationsKnown
    have run : d.Run reg declared b links := ⟨relations, nodes, edges⟩
    obtain ⟨g, built⟩ := run.exists_graph_iff.2 ok.endsDeclared
    exact ⟨g, declared, b, links, run, built⟩

end DependencyAtlas.Document.GraphDocument
