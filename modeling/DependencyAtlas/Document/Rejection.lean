import DependencyAtlas.Document.Graph
import DependencyAtlas.Document.Record

set_option autoImplicit false

namespace DependencyAtlas

namespace Document

structure Field where
  name : String
  required : Bool := false
  amiss : Json → Bool := fun _ => false

def amissIn (fields : List Field) : Json → Bool
  | .object entries =>
    (entries.any fun e => fields.all fun f => e.1 != some f.name) ||
    (fields.any fun f => f.required && entries.all fun e => e.1 != some f.name) ||
    fields.any fun f => entries.any fun e => e.1 == some f.name && f.amiss e.2
  -- a record that is written as a list may still have objects in it
  | .array items => (fields.zip items).any fun (f, v) => f.amiss v
  | _ => false

def amissInItems (amiss : Json → Bool) : Json → Bool
  | .array items => items.any amiss
  | _ => false

def RelationEntry.fields : List Field :=
  [{ name := "name", required := true }, { name := "reverse", required := true }]

def NodeEntry.fields : List Field :=
  [{ name := "id", required := true }, { name := "label" }, { name := "kind" }]

def EdgeEntry.fields : List Field :=
  [{ name := "head", required := true }, { name := "tail", required := true },
    { name := "relation", required := true }]

def GraphDocument.fields : List Field :=
  [{ name := "relations", amiss := amissInItems (amissIn RelationEntry.fields) },
    { name := "nodes", required := true, amiss := amissInItems (amissIn NodeEntry.fields) },
    { name := "edges", amiss := amissInItems (amissIn EdgeEntry.fields) }]

end Document

namespace Path

open Document

def EdgeDraft.fields : List Field :=
  [{ name := "forward" }, { name := "backward" }, { name := "forward_sets" },
    { name := "backward_sets" }]

def TermDraft.fields : List Field :=
  [{ name := "edges", amiss := amissIn EdgeDraft.fields }, { name := "kinds" },
    { name := "recursive" }, { name := "cumulative" }]

def Draft.fields : List Field :=
  [{ name := "name" }, { name := "terms", amiss := amissInItems (amissIn TermDraft.fields) }]

end Path

namespace Document

def meaning (reg : Registry) (entries : List RelationEntry) (name : String) : Option Relation :=
  (reg.relation? name).or ((entries.find? (·.name == name)).map RelationEntry.relation)

namespace GraphDocument

def RelationsAgree (d : GraphDocument) (reg : Registry) : Prop :=
  (∀ r ∈ d.relations, ∀ known, reg.relation? r.name = some known → known.reverse = r.reverse) ∧
  ∀ r ∈ d.relations, ∀ s ∈ d.relations, r.name = s.name → r.reverse = s.reverse

def NodesAgree (d : GraphDocument) : Prop :=
  ∀ m ∈ d.nodes, ∀ n ∈ d.nodes, m.id = n.id → m.node = n.node

def RelationsKnown (d : GraphDocument) (reg : Registry) : Prop :=
  ∀ e ∈ d.edges, (reg.relation? e.relation).isSome ∨ ∃ r ∈ d.relations, r.name = e.relation

def EndsDeclared (d : GraphDocument) : Prop :=
  ∀ e ∈ d.edges, (∃ n ∈ d.nodes, n.id = e.head) ∧ ∃ n ∈ d.nodes, n.id = e.tail

structure WellFormed (d : GraphDocument) (reg : Registry) : Prop where
  relationsAgree : d.RelationsAgree reg
  nodesAgree : d.NodesAgree
  relationsKnown : d.RelationsKnown reg
  endsDeclared : d.EndsDeclared

structure SameEntries (d e : GraphDocument) : Prop where
  relations : ∀ r, r ∈ d.relations ↔ r ∈ e.relations
  nodes : ∀ n, n ∈ d.nodes ↔ n ∈ e.nodes
  edges : ∀ x, x ∈ d.edges ↔ x ∈ e.edges

-- The declarations up to the first one, if any, that is in conflict with those before it.
def Undisputed (d : GraphDocument) (reg : Registry) (declared : List RelationEntry) : Prop :=
  { d with relations := declared }.RelationsAgree reg ∧
    (declared = d.relations ∨ ∃ r after, d.relations = declared ++ r :: after ∧
      ¬ { d with relations := declared ++ [r] }.RelationsAgree reg)

inductive Rejected (d : GraphDocument) (reg : Registry) : LoadError → Prop where
  | relation {before : List RelationEntry} {r : RelationEntry} {after : List RelationEntry}
      {known : Relation}
      (split : d.relations = before ++ r :: after)
      (agree : { d with relations := before }.RelationsAgree reg)
      (held : meaning reg before r.name = some known)
      (conflict : known.reverse ≠ r.reverse) :
      Rejected d reg (.relation (.conflictingRelation r.name known.reverse))
  | node {before : List NodeEntry} {m n : NodeEntry} {after : List NodeEntry}
      (relations : d.RelationsAgree reg)
      (split : d.nodes = before ++ n :: after)
      (agree : { d with nodes := before }.NodesAgree)
      (held : m ∈ before)
      (same : m.id = n.id)
      (conflict : m.node ≠ n.node) :
      Rejected d reg (.node (.conflictingNode n.id))
  | edge {before : List EdgeEntry} {x : EdgeEntry} {after : List EdgeEntry}
      (relations : d.RelationsAgree reg)
      (nodes : d.NodesAgree)
      (split : d.edges = before ++ x :: after)
      (known : { d with edges := before }.RelationsKnown reg)
      (unknown : ¬ { d with edges := [x] }.RelationsKnown reg) :
      Rejected d reg (.edge x.head x.tail (.unknownRelation x.relation))
  | graph {before : List EdgeEntry} {x : EdgeEntry} {after : List EdgeEntry} {r : Relation}
      (relations : d.RelationsAgree reg)
      (nodes : d.NodesAgree)
      (known : d.RelationsKnown reg)
      (split : d.edges = before ++ x :: after)
      (declared : { d with edges := before }.EndsDeclared)
      (dangling : ¬ { d with edges := [x] }.EndsDeclared)
      (named : meaning reg d.relations x.relation = some r) :
      Rejected d reg (.graph (.danglingEdge x.head x.tail r.forward
        (if x.head ∈ d.nodes.map NodeEntry.id then x.tail else x.head)))

end GraphDocument

end Document

end DependencyAtlas
