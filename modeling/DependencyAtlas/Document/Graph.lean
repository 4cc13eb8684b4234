import DependencyAtlas.Document.Datum
import DependencyAtlas.Graph.Builder

set_option autoImplicit false

namespace DependencyAtlas.Document

structure RelationEntry where
  name : String
  reverse : String
deriving DecidableEq, Repr

structure NodeEntry where
  id : String
  label : Option String := none
  kind : Option String := none
deriving DecidableEq, Repr

structure EdgeEntry where
  head : String
  tail : String
  relation : String
deriving DecidableEq, Repr

structure GraphDocument where
  relations : List RelationEntry := []
  nodes : List NodeEntry
  edges : List EdgeEntry := []
deriving DecidableEq, Repr

namespace RelationEntry

def ofDatum? (d : Datum) : Option RelationEntry := do
  match ← d.record? .json ["name", "reverse"] with
  | [name, reverse] =>
    return ⟨← Datum.required Datum.text? name, ← Datum.required Datum.text? reverse⟩
  | _ => none

def toJson (r : RelationEntry) : Json :=
  .fields [("name", .text r.name), ("reverse", .text r.reverse)]

def relation (r : RelationEntry) : Relation := ⟨r.name, r.reverse⟩

end RelationEntry

namespace NodeEntry

def ofDatum? (d : Datum) : Option NodeEntry := do
  match ← d.record? .json ["id", "label", "kind"] with
  | [id, label, kind] =>
    return ⟨← Datum.required Datum.text? id,
      ← Datum.defaulted none (Datum.nullable? Datum.text?) label,
      ← Datum.defaulted none (Datum.nullable? Datum.text?) kind⟩
  | _ => none

def toJson (n : NodeEntry) : Json :=
  .fields <|
    ("id", .text n.id) ::
    (n.label.map fun s => ("label", .text s)).toList ++
    (n.kind.map fun s => ("kind", .text s)).toList

-- A kind that is missing or not recognized is unknown.
def node (n : NodeEntry) : Node :=
  ⟨n.id, n.label.getD n.id, (n.kind.bind NodeKind.ofName?).getD .unknown⟩

def events (n : NodeEntry) : List Event :=
  match n.kind with
  | none => []
  | some name =>
    match NodeKind.ofName? name with
    | some _ => []
    | none => [⟨.warn, s!"Node '{n.id}' has unrecognized kind '{name}'"⟩]

end NodeEntry

namespace EdgeEntry

def ofDatum? (d : Datum) : Option EdgeEntry := do
  match ← d.record? .json ["head", "tail", "relation"] with
  | [head, tail, relation] =>
    return ⟨← Datum.required Datum.text? head, ← Datum.required Datum.text? tail,
      ← Datum.required Datum.text? relation⟩
  | _ => none

def toJson (e : EdgeEntry) : Json :=
  .fields [("head", .text e.head), ("tail", .text e.tail), ("relation", .text e.relation)]

end EdgeEntry

inductive LoadError where
  | relation (error : ModelError)
  | node (error : ModelError)
  | edge (head tail : String) (error : ModelError)
  | graph (error : ModelError)
deriving DecidableEq, Repr

namespace LoadError

def error : LoadError → ModelError
  | relation e => e
  | node e => e
  | edge _ _ e => e
  | graph e => e

def message : LoadError → String
  | relation _ => "Invalid relation declaration"
  | node e => e.message
  | edge head tail _ => s!"Edge {head} -> {tail}"
  | graph e => e.message

def causes : LoadError → List String
  | relation e => [e.message]
  | node _ => []
  | edge _ _ e => [e.message]
  | graph _ => []

end LoadError

-- What was registered before a fault stays.
structure Loading where
  registry : Registry
  result : Except LoadError Graph

namespace GraphDocument

def ofDatum? (d : Datum) : Option GraphDocument := do
  match ← d.record? .json ["relations", "nodes", "edges"] with
  | [relations, nodes, edges] =>
    return ⟨← Datum.defaulted [] (Datum.list? RelationEntry.ofDatum?) relations,
      ← Datum.required (Datum.list? NodeEntry.ofDatum?) nodes,
      ← Datum.defaulted [] (Datum.list? EdgeEntry.ofDatum?) edges⟩
  | _ => none

def toJson (d : GraphDocument) : Json :=
  .fields [("relations", .array (d.relations.map RelationEntry.toJson)),
    ("nodes", .array (d.nodes.map NodeEntry.toJson)),
    ("edges", .array (d.edges.map EdgeEntry.toJson))]

def declare (reg : Registry) : List RelationEntry → Registry × Option ModelError
  | [] => (reg, none)
  | r :: rest =>
    match reg.register r.relation with
    | .ok reg => declare reg rest
    | .error e => (reg, some e)

def declareEvents (reg : Registry) : List RelationEntry → List Event
  | [] => []
  | r :: rest =>
    reg.registerEvents r.relation ++
      match reg.register r.relation with
      | .ok reg => declareEvents reg rest
      | .error _ => []

def nodeEvents (b : Graph.Builder) : List NodeEntry → List Event
  | [] => []
  | n :: rest =>
    n.events ++
      match b.add n.node with
      | .ok b => nodeEvents b rest
      | .error _ => []

def link (reg : Registry) (e : EdgeEntry) : Except LoadError Link :=
  match reg.require e.relation with
  | .ok r => .ok ⟨e.head, e.tail, r⟩
  | .error error => .error (.edge e.head e.tail error)

def graph (d : GraphDocument) (reg : Registry) : Except LoadError Graph := do
  -- every relation is looked up before any end of an edge
  let b ← ((d.nodes.map NodeEntry.node).foldlM Graph.Builder.add .empty).mapError .node
  let links ← d.edges.mapM (link reg)
  (links.foldl Graph.Builder.connect b).build.mapError .graph

def load (d : GraphDocument) (reg : Registry) : Loading :=
  match declare reg d.relations with
  | (reg, some e) => ⟨reg, .error (.relation e)⟩
  | (reg, none) => ⟨reg, d.graph reg⟩

def loadEvents (d : GraphDocument) (reg : Registry) : List Event :=
  declareEvents reg d.relations ++
    match declare reg d.relations with
    | (_, some _) => []
    | (reg, none) =>
      nodeEvents .empty d.nodes ++
        match d.graph reg with
        | .error _ => []
        | .ok g =>
          [Graph.Builder.builtEvent g,
            ⟨.info, s!"Loaded graph: {g.nodeCount} nodes, {g.edgeCount} edges"⟩]

end GraphDocument

end DependencyAtlas.Document
