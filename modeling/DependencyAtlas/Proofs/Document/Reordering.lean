import DependencyAtlas.Proofs.Document.Loading
import DependencyAtlas.Proofs.Graph.Content

set_option autoImplicit false

namespace DependencyAtlas.Document.GraphDocument

open DependencyAtlas.Graph (Builder)
open Layout

variable {d e : GraphDocument} {reg declared declared' : Registry} {b b' : Builder}
  {links links' : List Link} {g h : Graph}

namespace SameEntries

theorem symm (same : d.SameEntries e) : e.SameEntries d where
  relations r := (same.relations r).symm
  nodes n := (same.nodes n).symm
  edges x := (same.edges x).symm

theorem wellFormed (same : d.SameEntries e) (ok : d.WellFormed reg) : e.WellFormed reg where
  relationsAgree := by simpa only [RelationsAgree, same.relations] using ok.relationsAgree
  nodesAgree := by simpa only [NodesAgree, same.nodes] using ok.nodesAgree
  relationsKnown := by
    simpa only [RelationsKnown, same.relations, same.edges] using ok.relationsKnown
  endsDeclared := by simpa only [EndsDeclared, same.nodes, same.edges] using ok.endsDeclared

theorem relation?_eq (same : d.SameEntries e) (run : d.Run reg declared b links)
    (again : e.Run reg declared' b' links') (name : String) :
    declared.relation? name = declared'.relation? name := by
  refine Registry.relation?_eq_of_same ?_ run.relations again.relations name
  intro r
  simp only [List.mem_map, same.relations]

theorem find?_eq (same : d.SameEntries e) (run : d.Run reg declared b links)
    (again : e.Run reg declared' b' links') (id : String) : b.known.find? id = b'.known.find? id := by
  refine Builder.filing.look_eq_of_same ?_ (fun _ _ _ node => node) run.nodes again.nodes id
  intro n
  simp only [List.mem_map, same.nodes]

theorem sameContent (same : d.SameEntries e) (loaded : (d.load reg).result = .ok g)
    (again : (e.load reg).result = .ok h) : g.SameContent h := by
  obtain ⟨declared, b, links, run, built⟩ := load_eq_ok_iff.1 loaded
  obtain ⟨declared', b', links', run', built'⟩ := load_eq_ok_iff.1 again
  have node? (id : String) : g.node? id = h.node? id := by
    rw [node?_of_connected built, node?_of_connected built', same.find?_eq run run']
  refine ⟨node?, fun x => ?_⟩
  rw [run.mem_edges_iff built, run'.mem_edges_iff built']
  simp only [same.edges, same.relation?_eq run run', node?]

end SameEntries

theorem load_sameEntries (same : d.SameEntries e) (reg : Registry) :
    ((∃ g, (d.load reg).result = .ok g) ↔ ∃ h, (e.load reg).result = .ok h) ∧
    ∀ g h, (d.load reg).result = .ok g → (e.load reg).result = .ok h →
      (∀ (x : Path.Expression) (input : NodeSet), x.select g input = x.select h input) ∧
      ∀ rule : EdgeRule,
        let left := Hierarchy.ofGraph g rule
        let right := Hierarchy.ofGraph h rule
        (∀ n, left.children? n = right.children? n ∧ left.parents? n = right.parents? n) ∧
          left.roots = right.roots ∧ Linear.slots left = Linear.slots right ∧
          Radial.slots left = Radial.slots right ∧
          ∀ settings : Settings, settings.positions left = settings.positions right := by
  constructor
  · rw [exists_load_iff, exists_load_iff]
    exact ⟨same.wellFormed, same.symm.wellFormed⟩
  · intro g h loaded again
    have content : g.SameContent h := same.sameContent loaded again
    refine ⟨fun x input => x.select_eq content input, fun rule => ?_⟩
    intro left right
    have hierarchy : left = right := Hierarchy.ofGraph_eq content rule
    rw [hierarchy]
    exact ⟨fun n => ⟨rfl, rfl⟩, rfl, rfl, rfl, fun settings => rfl⟩

def shop : GraphDocument where
  relations := [⟨"owns", "owned by"⟩]
  nodes := [⟨"shop", none, some "type"⟩, ⟨"till", none, none⟩, ⟨"pay", some "Pay", some "method"⟩]
  edges := [⟨"shop", "till", "owns"⟩, ⟨"till", "pay", "call"⟩]

-- The entries of `shop` in another order, some of them twice.
def shopAgain : GraphDocument where
  relations := [⟨"owns", "owned by"⟩, ⟨"owns", "owned by"⟩]
  nodes := [⟨"pay", some "Pay", some "method"⟩, ⟨"till", none, none⟩,
    ⟨"pay", some "Pay", some "method"⟩, ⟨"shop", none, some "type"⟩]
  edges := [⟨"till", "pay", "call"⟩, ⟨"shop", "till", "owns"⟩, ⟨"till", "pay", "call"⟩]

theorem shopAgain_loads_alike :
    shop.SameEntries shopAgain ∧
      ∃ g h, (shop.load .builtin).result = .ok g ∧ (shopAgain.load .builtin).result = .ok h ∧
        g.nodes.map Node.id = ["shop", "till", "pay"] ∧
        h.nodes.map Node.id = ["pay", "till", "shop"] ∧
        (∀ (x : Path.Expression) (input : NodeSet), x.select g input = x.select h input) ∧
        ∀ rule : EdgeRule,
          Linear.slots (.ofGraph g rule) = Linear.slots (.ofGraph h rule) ∧
            Radial.slots (.ofGraph g rule) = Radial.slots (.ofGraph h rule) := by
  have same : shop.SameEntries shopAgain := by
    constructor <;> grind [shop, shopAgain]
  have ids : (shop.load .builtin).result.toOption.map (·.nodes.map Node.id) =
      some ["shop", "till", "pay"] := by decide +kernel
  have idsAgain : (shopAgain.load .builtin).result.toOption.map (·.nodes.map Node.id) =
      some ["pay", "till", "shop"] := by decide +kernel
  have loads := load_sameEntries same .builtin
  cases loaded : (shop.load .builtin).result with
  | error e => simp [loaded, Except.toOption] at ids
  | ok g =>
    obtain ⟨h, again⟩ := loads.1.1 ⟨g, loaded⟩
    obtain ⟨paths, hierarchies⟩ := loads.2 g h loaded again
    rw [loaded] at ids
    rw [again] at idsAgain
    exact ⟨same, g, h, rfl, again, Option.some.inj ids, Option.some.inj idsAgain, paths, fun rule =>
      ⟨(hierarchies rule).2.2.1, (hierarchies rule).2.2.2.1⟩⟩

end DependencyAtlas.Document.GraphDocument
