import DependencyAtlas.Document.Datum
import DependencyAtlas.Layout.Runner
import DependencyAtlas.Path.Draft

set_option autoImplicit false

namespace DependencyAtlas

def NodeKind.ofExactName? (text : String) : Option NodeKind :=
  NodeKind.all.find? fun kind => kind.name == text

namespace Node

def ofDatum? (d : Datum) : Option Node := do
  match ← d.openRecord? ["id", "label", "kind"] with
  | [id, label, kind] =>
    return ⟨← Datum.required Datum.text? id, ← Datum.required Datum.text? label,
      ← Datum.required (Datum.choice? .json NodeKind.ofExactName?) kind⟩
  | _ => none

def toJson (n : Node) : Json :=
  .fields [("id", .text n.id), ("label", .text n.label), ("kind", .text n.kind.name)]

end Node

namespace Relation

def ofDatum? (d : Datum) : Option Relation := do
  match ← d.openRecord? ["forward", "reverse"] with
  | [forward, reverse] =>
    return ⟨← Datum.required Datum.text? forward, ← Datum.required Datum.text? reverse⟩
  | _ => none

def toJson (r : Relation) : Json :=
  .fields [("forward", .text r.forward), ("reverse", .text r.reverse)]

end Relation

namespace Positions

def pointOfDatum? (d : Datum) : Option (Point Float) := do
  match ← d.openRecord? ["x", "y"] with
  | [x, y] => return ⟨← Datum.required Datum.number? x, ← Datum.required Datum.number? y⟩
  | _ => none

-- Of several points with one id the last counts.
def ofDatum? (d : Datum) : Option (Positions Float) := do
  let entries ← d.entries?
  entries.foldlM (fun p (id, point) => return p.insert id (← pointOfDatum? point)) ∅

def toJson (p : Positions Float) : Json :=
  .fields (p.toList.map fun (id, q) => (id, .fields [("x", .float q.x), ("y", .float q.y)]))

end Positions

namespace Path

namespace EdgeDraft

def ofDatum? (format : Format) (d : Datum) : Option EdgeDraft := do
  match ← d.record? format ["forward", "backward", "forward_sets", "backward_sets"] with
  | [forward, backward, forwardSets, backwardSets] =>
    return ⟨← Datum.defaulted [] Datum.texts? forward, ← Datum.defaulted [] Datum.texts? backward,
      ← Datum.defaulted [] Datum.texts? forwardSets, ← Datum.defaulted [] Datum.texts? backwardSets⟩
  | _ => none

def toJson (d : EdgeDraft) : Json :=
  .fields [("forward", .texts d.forward), ("backward", .texts d.backward),
    ("forward_sets", .texts d.forwardSets), ("backward_sets", .texts d.backwardSets)]

end EdgeDraft

namespace TermDraft

def ofDatum? (format : Format) (d : Datum) : Option TermDraft := do
  match ← d.record? format ["edges", "kinds", "recursive", "cumulative"] with
  | [edges, kinds, recursive, cumulative] =>
    return ⟨← Datum.defaulted none (Datum.nullable? (EdgeDraft.ofDatum? format)) edges,
      ← Datum.defaulted none (Datum.nullable? Datum.texts?) kinds,
      ← Datum.defaulted false Datum.bool? recursive,
      ← Datum.defaulted false Datum.bool? cumulative⟩
  | _ => none

def toJson (d : TermDraft) : Json :=
  .fields <|
    (d.edges.map fun e => ("edges", e.toJson)).toList ++
    (d.kinds.map fun names => ("kinds", .texts names)).toList ++
    [("recursive", .bool d.recursive), ("cumulative", .bool d.cumulative)]

end TermDraft

namespace Draft

def ofDatum? (format : Format) (d : Datum) : Option Draft := do
  match ← d.record? format ["name", "terms"] with
  | [name, terms] =>
    return ⟨← Datum.defaulted none (Datum.nullable? Datum.text?) name,
      ← Datum.defaulted [] (Datum.list? (TermDraft.ofDatum? format)) terms⟩
  | _ => none

def toJson (d : Draft) : Json :=
  .fields <|
    (d.name.map fun name => ("name", .text name)).toList ++
    [("terms", .array (d.terms.map TermDraft.toJson))]

end Draft

end Path

namespace Layout

def Kind.ofExactName? : String → Option Kind
  | "linear" => some .linear
  | "radial" => some .radial
  | _ => none

namespace Settings

def ofDatum? (format : Format) (d : Datum) : Option Settings := do
  let names := ["kind", "horizontal_spacing", "vertical_spacing", "ring_spacing"]
  let standard : Settings := {}
  match ← d.record? format names with
  | [kind, horizontal, vertical, ring] =>
    return ⟨← Datum.defaulted standard.kind (Datum.choice? format Kind.ofExactName?) kind,
      ← Datum.defaulted standard.horizontalSpacing Datum.number? horizontal,
      ← Datum.defaulted standard.verticalSpacing Datum.number? vertical,
      ← Datum.defaulted standard.ringSpacing Datum.number? ring⟩
  | _ => none

end Settings

end Layout

end DependencyAtlas
