import DependencyAtlas.Proofs.Document.Loading

set_option autoImplicit false

namespace DependencyAtlas.Document

open DependencyAtlas.Graph (Builder)

variable {reg declared : Registry}

theorem relation?_declared {entries : List RelationEntry}
    (registered : (entries.map RelationEntry.relation).foldlM Registry.register reg = .ok declared)
    (name : String) : declared.relation? name = meaning reg entries name := by
  rw [Registry.filing.look_foldlM registered, List.find?_map]
  rfl

namespace GraphDocument

variable {d : GraphDocument} {b : Builder} {links : List Link} {g : Graph}

theorem declare_eq_error_iff {entries : List RelationEntry} {error : ModelError} :
    declare reg entries = (declared, some error) ↔
      ∃ before r after, entries = before ++ r :: after ∧
        (before.map RelationEntry.relation).foldlM Registry.register reg = .ok declared ∧
          declared.register r.relation = .error error := by
  induction entries generalizing reg with
  | nil => simp [declare]
  | cons r rest ih =>
    rw [exists_split_cons_iff, declare]
    simp only [List.map_nil, List.foldlM_nil, List.map_cons, List.foldlM_cons, bind_eq_ok_iff]
    split
    · next next registered =>
      rw [ih]
      constructor
      · intro later
        obtain ⟨before, s, after, split, earlier, conflict⟩ := later
        exact .inr ⟨before, s, after, split, ⟨next, registered, earlier⟩, conflict⟩
      · intro found
        rcases found with ⟨same, conflict⟩ | ⟨before, s, after, split, ⟨t, first, earlier⟩, conflict⟩
        · cases same
          cases registered.symm.trans conflict
        · cases registered.symm.trans first
          exact ⟨before, s, after, split, earlier, conflict⟩
    · next cause refused =>
      constructor
      · intro same
        cases same
        exact .inl ⟨rfl, refused⟩
      · intro found
        rcases found with ⟨same, conflict⟩ | ⟨_, _, _, _, ⟨t, first, _⟩, _⟩
        · cases same
          cases refused.symm.trans conflict
          rfl
        · cases refused.symm.trans first

theorem link_eq_error_iff {x : EdgeEntry} {error : LoadError} :
    link reg x = .error error ↔ reg.relation? x.relation = none ∧
      error = .edge x.head x.tail (.unknownRelation x.relation) := by
  unfold link Registry.require
  cases reg.relation? x.relation <;> simp [eq_comm]

theorem graph_eq_error_iff {error : LoadError} :
    d.graph reg = .error error ↔
      (∃ cause, (d.nodes.map NodeEntry.node).foldlM Builder.add .empty = .error cause ∧
        .node cause = error) ∨
      ∃ b, (d.nodes.map NodeEntry.node).foldlM Builder.add .empty = .ok b ∧
        (d.edges.mapM (link reg) = .error error ∨
          ∃ links, d.edges.mapM (link reg) = .ok links ∧
            ∃ cause, (links.foldl Builder.connect b).build = .error cause ∧ .graph cause = error) := by
  simp only [graph, bind_eq_error_iff, mapError_eq_ok_iff, mapError_eq_error_iff]

theorem load_eq_error_iff {error : LoadError} :
    (d.load reg).result = .error error ↔
      (∃ cause, (∃ declared, declare reg d.relations = (declared, some cause)) ∧
        .relation cause = error) ∨
      ∃ declared, declare reg d.relations = (declared, none) ∧ d.graph declared = .error error := by
  unfold load
  split
  · next declared cause conflict => simp [conflict]
  · next declared registered => simp [registered]

theorem declare_conflict_iff {cause : ModelError} :
    (∃ declared, declare reg d.relations = (declared, some cause)) ↔
      ∃ before r after known, d.relations = before ++ r :: after ∧
        { d with relations := before }.RelationsAgree reg ∧
          meaning reg before r.name = some known ∧ known.reverse ≠ r.reverse ∧
            cause = .conflictingRelation r.name known.reverse := by
  simp only [declare_eq_error_iff, Registry.register_eq_error_iff, ← exists_declared_iff]
  constructor
  · intro conflict
    obtain ⟨declared, before, r, after, split, registered, known, found, other, message⟩ := conflict
    rw [relation?_declared registered] at found
    exact ⟨before, r, after, known, split, ⟨declared, registered⟩, found, other, message⟩
  · intro conflict
    obtain ⟨before, r, after, known, split, ⟨declared, registered⟩, found, other, message⟩ := conflict
    rw [← relation?_declared registered] at found
    exact ⟨declared, before, r, after, split, registered, known, found, other, message⟩

theorem nodes_collected {entries : List NodeEntry}
    (added : (entries.map NodeEntry.node).foldlM Builder.add .empty = .ok b) :
    b.nodes.toList = (entries.map NodeEntry.node).eraseDups := by
  have nodes : b.nodes.toList = ([] ++ entries.map NodeEntry.node).eraseDups :=
    Builder.nodes_foldlM_add rfl added
  exact nodes

theorem nodes_conflict_iff {cause : ModelError} :
    (d.nodes.map NodeEntry.node).foldlM Builder.add .empty = .error cause ↔
      ∃ before n after, d.nodes = before ++ n :: after ∧ { d with nodes := before }.NodesAgree ∧
        (∃ m ∈ before, m.id = n.id ∧ m.node ≠ n.node) ∧ cause = .conflictingNode n.id := by
  have held {before : List NodeEntry} {b : Builder}
      (added : (before.map NodeEntry.node).foldlM Builder.add .empty = .ok b) (n : NodeEntry) :
      (∃ m ∈ b.nodes.toList, m.id = n.node.id ∧ m ≠ n.node) ↔
        ∃ m ∈ before, m.id = n.id ∧ m.node ≠ n.node := by
    simp only [nodes_collected added, List.mem_eraseDups, List.mem_map, exists_exists_and_eq_and]
    rfl
  rw [List.foldlM_map, foldlM_eq_error_iff]
  simp only [← List.foldlM_map, Builder.add_eq_error_iff, ← exists_nodes_iff]
  constructor
  · intro conflict
    obtain ⟨before, n, after, split, b, added, clash, message⟩ := conflict
    exact ⟨before, n, after, split, ⟨b, added⟩, (held added n).1 clash, message⟩
  · intro conflict
    obtain ⟨before, n, after, split, ⟨b, added⟩, clash, message⟩ := conflict
    exact ⟨before, n, after, split, b, added, (held added n).2 clash, message⟩

theorem links_unknown_iff {error : LoadError}
    (registered : (d.relations.map RelationEntry.relation).foldlM Registry.register reg
      = .ok declared) :
    d.edges.mapM (link declared) = .error error ↔
      ∃ before x after, d.edges = before ++ x :: after ∧
        { d with edges := before }.RelationsKnown reg ∧ ¬ { d with edges := [x] }.RelationsKnown reg ∧
          error = .edge x.head x.tail (.unknownRelation x.relation) := by
  have linked (entries : List EdgeEntry) : (∀ x ∈ entries, ∃ l, link declared x = .ok l) ↔
      { d with edges := entries }.RelationsKnown reg := by
    rw [← exists_mapM_iff]
    exact exists_links_iff (d := { d with edges := entries }) registered
  have unknown (x : EdgeEntry) : declared.relation? x.relation = none ↔
      ¬ { d with edges := [x] }.RelationsKnown reg := by
    rw [← linked]
    simp [link_eq_ok_iff, Option.eq_none_iff_forall_ne_some]
  simp only [mapM_eq_error_iff, link_eq_error_iff, linked, unknown]

namespace Run

theorem build_error_iff (run : d.Run reg declared b links) {cause : ModelError} :
    (links.foldl Builder.connect b).build = .error cause ↔
      ∃ before x after r, d.edges = before ++ x :: after ∧
        { d with edges := before }.EndsDeclared ∧ ¬ { d with edges := [x] }.EndsDeclared ∧
          meaning reg d.relations x.relation = some r ∧
            cause = .danglingEdge x.head x.tail r.forward
              (if x.head ∈ d.nodes.map NodeEntry.id then x.tail else x.head) := by
  have declaredId (id : String) : (b.known.find? id).isSome ↔ id ∈ d.nodes.map NodeEntry.id := by
    rw [Builder.filing.isSome_look_foldlM run.nodes, List.map_map]
    simp [Builder.empty, NodeEntry.node]
  have before_iff {before : List EdgeEntry} {found : List Link}
      (earlier : before.mapM (link declared) = .ok found) :
      (∀ l ∈ found, (b.known.find? l.head).isSome ∧ (b.known.find? l.tail).isSome) ↔
        { d with edges := before }.EndsDeclared :=
    ends_known_iff (d := { d with edges := before }) ⟨run.relations, run.nodes, earlier⟩
  have ends_iff (x : EdgeEntry) : { d with edges := [x] }.EndsDeclared ↔
      (b.known.find? x.head).isSome ∧ (b.known.find? x.tail).isSome := by
    simp [EndsDeclared, declaredId]
  rw [Builder.build_eq_error_iff, run.links_connected, exists_split_mapM_iff run.edges]
  simp only [Builder.resolve_eq_error_iff, known_connected]
  constructor
  · intro failed
    obtain ⟨before, x, after, split, found, l, earlier, linked, passed, dangling, message⟩ := failed
    obtain ⟨r, named, rfl⟩ := link_eq_ok_iff.1 linked
    rw [relation?_declared run.relations] at named
    refine ⟨before, x, after, r, split, (before_iff earlier).1 passed, ?_, named, ?_⟩
    · rwa [ends_iff]
    · simpa only [declaredId] using message
  · intro failed
    obtain ⟨before, x, after, r, split, passed, dangling, named, message⟩ := failed
    have each := exists_mapM_iff.1 ⟨links, run.edges⟩
    rw [split, List.forall_mem_append] at each
    obtain ⟨found, earlier⟩ := exists_mapM_iff.2 each.1
    rw [← relation?_declared run.relations] at named
    refine ⟨before, x, after, split, found, ⟨x.head, x.tail, r⟩, earlier,
      link_eq_ok_iff.2 ⟨r, named, rfl⟩, (before_iff earlier).2 passed, ?_, ?_⟩
    · rwa [ends_iff] at dangling
    · simpa only [declaredId] using message

theorem nodes_eq (run : d.Run reg declared b links)
    (built : (links.foldl Builder.connect b).build = .ok g) :
    g.nodes = (d.nodes.map NodeEntry.node).eraseDups := by
  have kept : (links.foldl Builder.connect b).nodes = b.nodes := by rw [Builder.foldl_connect]
  rw [(Builder.of_build built).1, kept, nodes_collected run.nodes]

theorem edges_eq (run : d.Run reg declared b links)
    (built : (links.foldl Builder.connect b).build = .ok g) :
    g.edges.map (fun e => (e.head.id, e.tail.id, some e.relation)) =
      (d.edges.map fun x => (x.head, x.tail, declared.relation? x.relation)).eraseDups := by
  let triple (l : Link) : String × String × Option Relation := (l.head, l.tail, some l.relation)
  have injective : triple.Injective := by
    intro l m same
    cases l
    cases m
    simp_all [triple]
  have resolved : (d.edges.map fun x => (x.head, x.tail, declared.relation? x.relation)) =
      links.map triple := by
    refine map_eq_of_mapM (fun x l linked => ?_) run.edges
    obtain ⟨r, named, rfl⟩ := link_eq_ok_iff.1 linked
    rw [named]
  have distinct : g.edges.map Edge.link = links.eraseDups := by
    rw [Builder.links_of_build built, run.links_connected]
  calc g.edges.map (fun e => (e.head.id, e.tail.id, some e.relation))
      = (g.edges.map Edge.link).map triple := by rw [List.map_map]; rfl
    _ = (links.map triple).eraseDups := by rw [distinct, eraseDups_map injective]
    _ = (d.edges.map fun x => (x.head, x.tail, declared.relation? x.relation)).eraseDups := by
      rw [resolved]

theorem registry_eq (run : d.Run reg declared b links) : (d.load reg).registry = declared := by
  rw [load, declare_eq_iff.2 run.relations]

end Run

theorem load_rejected_iff {error : LoadError} :
    (d.load reg).result = .error error ↔ d.Rejected reg error := by
  rw [load_eq_error_iff]
  simp only [declare_conflict_iff, declare_eq_iff]
  constructor
  · intro failed
    rcases failed with
      ⟨cause, ⟨before, r, after, known, split, agree, held, other, rfl⟩, rfl⟩ |
      ⟨declared, registered, failed⟩
    · exact .relation split agree held other
    · have relations := exists_declared_iff.1 ⟨declared, registered⟩
      rcases graph_eq_error_iff.1 failed with ⟨cause, conflict, rfl⟩ | ⟨b, added, failed⟩
      · obtain ⟨before, n, after, split, agree, ⟨m, hm, same, other⟩, rfl⟩ :=
          nodes_conflict_iff.1 conflict
        exact .node relations split agree hm same other
      · have nodes := exists_nodes_iff.1 ⟨b, added⟩
        rcases failed with unlinked | ⟨links, linked, cause, dangling, rfl⟩
        · obtain ⟨before, x, after, split, known, unknown, rfl⟩ :=
            (links_unknown_iff registered).1 unlinked
          exact .edge relations nodes split known unknown
        · have run : d.Run reg declared b links := ⟨registered, added, linked⟩
          obtain ⟨before, x, after, r, split, joined, missing, named, rfl⟩ :=
            run.build_error_iff.1 dangling
          exact .graph relations nodes ((exists_links_iff registered).1 ⟨links, linked⟩) split joined
            missing named
  · intro rejected
    cases rejected with
    | relation split agree held other =>
      exact .inl ⟨_, ⟨_, _, _, _, split, agree, held, other, rfl⟩, rfl⟩
    | node relations split agree held same other =>
      obtain ⟨declared, registered⟩ := exists_declared_iff.2 relations
      have conflict := nodes_conflict_iff.2 ⟨_, _, _, split, agree, ⟨_, held, same, other⟩, rfl⟩
      exact .inr ⟨declared, registered, graph_eq_error_iff.2 (.inl ⟨_, conflict, rfl⟩)⟩
    | edge relations nodes split known unknown =>
      obtain ⟨declared, registered⟩ := exists_declared_iff.2 relations
      obtain ⟨b, added⟩ := exists_nodes_iff.2 nodes
      have unlinked := (links_unknown_iff registered).2 ⟨_, _, _, split, known, unknown, rfl⟩
      exact .inr ⟨declared, registered, graph_eq_error_iff.2 (.inr ⟨b, added, .inl unlinked⟩)⟩
    | graph relations nodes known split joined missing named =>
      obtain ⟨declared, registered⟩ := exists_declared_iff.2 relations
      obtain ⟨b, added⟩ := exists_nodes_iff.2 nodes
      obtain ⟨links, linked⟩ := (exists_links_iff registered).2 known
      have run : d.Run reg declared b links := ⟨registered, added, linked⟩
      have dangling := run.build_error_iff.2 ⟨_, _, _, _, split, joined, missing, named, rfl⟩
      exact .inr ⟨declared, registered,
        graph_eq_error_iff.2 (.inr ⟨b, added, .inr ⟨links, linked, _, dangling, rfl⟩⟩)⟩

theorem registry_load (d : GraphDocument) (reg : Registry) :
    (d.load reg).registry = (declare reg d.relations).1 := by
  unfold load
  split
  · next conflict => rw [conflict]
  · next registered => rw [registered]

theorem exists_undisputed (d : GraphDocument) (reg : Registry) :
    ∃ entries, d.Undisputed reg entries ∧
      (entries.map RelationEntry.relation).foldlM Registry.register reg
        = .ok (d.load reg).registry := by
  rw [registry_load]
  obtain ⟨declared, outcome⟩ : ∃ declared, (declare reg d.relations).1 = declared := ⟨_, rfl⟩
  cases cause : (declare reg d.relations).2 with
  | none =>
    have registered := declare_eq_iff.1 (Prod.ext outcome cause)
    rw [outcome]
    exact ⟨d.relations, ⟨exists_declared_iff.1 ⟨declared, registered⟩, .inl rfl⟩, registered⟩
  | some error =>
    obtain ⟨before, r, after, split, registered, conflict⟩ :=
      declare_eq_error_iff.1 (Prod.ext outcome cause)
    rw [outcome]
    refine ⟨before, ⟨exists_declared_iff.1 ⟨declared, registered⟩, .inr ⟨r, after, split, ?_⟩⟩,
      registered⟩
    rw [← exists_declared_iff]
    intro further
    obtain ⟨next, registered'⟩ := further
    rw [List.map_append, List.foldlM_append, registered] at registered'
    obtain ⟨t, same, refused⟩ := bind_eq_ok_iff.1 registered'
    cases same
    obtain ⟨u, taken, -⟩ := bind_eq_ok_iff.1 refused
    cases conflict.symm.trans taken

-- The vocabulary keeps the declarations before the first conflict even if loading fails.
theorem load_decided (d : GraphDocument) (reg : Registry) :
    ((∃ g, (d.load reg).result = .ok g) ↔ d.WellFormed reg) ∧
    (∀ error, (d.load reg).result = .error error ↔ d.Rejected reg error) ∧
    (∀ g, (d.load reg).result = .ok g →
      g.nodes = (d.nodes.map NodeEntry.node).eraseDups ∧
      g.edges.map (fun e => (e.head.id, e.tail.id, some e.relation)) =
        (d.edges.map fun x =>
          (x.head, x.tail, (d.load reg).registry.relation? x.relation)).eraseDups) ∧
    (d.load reg).registry.sets = reg.sets ∧
    ∃ declared, d.Undisputed reg declared ∧
      ∀ name, (d.load reg).registry.relation? name = meaning reg declared name := by
  obtain ⟨declared, undisputed, registered⟩ := exists_undisputed d reg
  refine ⟨exists_load_iff, fun error => load_rejected_iff, ?_,
    Registry.sets_foldlM_register registered, declared, undisputed, relation?_declared registered⟩
  intro g loaded
  obtain ⟨_, b, links, run, built⟩ := load_eq_ok_iff.1 loaded
  rw [run.registry_eq]
  exact ⟨run.nodes_eq built, run.edges_eq built⟩

def take (d : GraphDocument) (relations nodes edges : Nat) : GraphDocument :=
  ⟨d.relations.take relations, d.nodes.take nodes, d.edges.take edges⟩

-- Each list has an entry at fault, and one of the edges lacks an end.
def muddle : GraphDocument where
  relations := [⟨"owns", "owned by"⟩, ⟨"call", "dialled by"⟩, ⟨"rents", "rented by"⟩]
  nodes := [⟨"shop", none, some "type"⟩, ⟨"shop", some "Shop", some "type"⟩]
  edges := [⟨"shop", "shop", "owns"⟩, ⟨"shop", "bank", "owns"⟩, ⟨"shop", "bank", "warp"⟩]

-- With the entry that was at fault left out, the next fault shows.
theorem muddle_first_faults :
    (muddle.load .builtin).result = .error (.relation (.conflictingRelation "call" "called by")) ∧
    ((muddle.take 1 2 3).load .builtin).result = .error (.node (.conflictingNode "shop")) ∧
    ((muddle.take 1 1 3).load .builtin).result =
      .error (.edge "shop" "bank" (.unknownRelation "warp")) ∧
    ((muddle.take 1 1 2).load .builtin).result =
      .error (.graph (.danglingEdge "shop" "bank" "owns" "bank")) ∧
    ∃ g, ((muddle.take 1 1 1).load .builtin).result = .ok g ∧
      g.nodes = [⟨"shop", "shop", .type⟩] := by
  have fresh : Registry.builtin.relation? "owns" = none := by decide +kernel
  have absent : Registry.builtin.relation? "warp" = none := by decide +kernel
  have known : Registry.builtin.relation? "call" = some ⟨"call", "called by"⟩ := by decide +kernel
  have agree (nodes : List NodeEntry) (edges : List EdgeEntry) :
      (GraphDocument.mk [⟨"owns", "owned by"⟩] nodes edges).RelationsAgree .builtin := by
    simp [RelationsAgree, fresh]
  have alone (relations : List RelationEntry) (edges : List EdgeEntry) :
      (GraphDocument.mk relations [⟨"shop", none, some "type"⟩] edges).NodesAgree := by
    simp [NodesAgree]
  refine ⟨?_, ?_, ?_, ?_, ?_⟩
  · have held : meaning .builtin [⟨"owns", "owned by"⟩] "call" = some ⟨"call", "called by"⟩ := by
      simp [meaning, known]
    have rejected := Rejected.relation (d := muddle) rfl (agree _ _) held (by decide)
    exact ((load_decided _ _).2.1 _).2 rejected
  · have split : (muddle.take 1 2 3).nodes =
        [⟨"shop", none, some "type"⟩] ++ [⟨"shop", some "Shop", some "type"⟩] := rfl
    have rejected := Rejected.node (agree _ _) split (alone _ _) List.mem_cons_self rfl
      (by decide +kernel)
    exact ((load_decided _ _).2.1 _).2 rejected
  · have split : (muddle.take 1 1 3).edges =
        muddle.edges.take 2 ++ [⟨"shop", "bank", "warp"⟩] := rfl
    have rejected := Rejected.edge (agree _ _) (alone _ _) split
      (by simp [RelationsKnown, muddle]) (by simp [RelationsKnown, absent])
    exact ((load_decided _ _).2.1 _).2 rejected
  · have split : (muddle.take 1 1 2).edges =
        muddle.edges.take 1 ++ [⟨"shop", "bank", "owns"⟩] := rfl
    have named : meaning .builtin (muddle.take 1 1 2).relations "owns" =
        some ⟨"owns", "owned by"⟩ := by
      simp [meaning, muddle, take, fresh, RelationEntry.relation]
    have rejected := Rejected.graph (agree _ _) (alone _ _)
      (by simp [RelationsKnown, muddle]) split (by simp [EndsDeclared, muddle])
      (by simp [EndsDeclared]) named
    exact ((load_decided _ _).2.1 _).2 rejected
  · have ok : (muddle.take 1 1 1).WellFormed .builtin := by
      refine ⟨agree _ _, alone _ _, ?_, ?_⟩
      · simp [RelationsKnown, muddle, take]
      · simp [EndsDeclared, muddle, take]
    obtain ⟨g, loaded⟩ := (load_decided _ _).1.2 ok
    exact ⟨g, loaded, ((load_decided _ _).2.2.1 g loaded).1.trans (by decide +kernel)⟩

end GraphDocument

end DependencyAtlas.Document
