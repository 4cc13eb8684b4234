import DependencyAtlas.Proofs.Document.Form

set_option autoImplicit false

namespace DependencyAtlas

open Document

namespace Document

namespace RelationEntry

theorem ofDatum?_toJson (r : RelationEntry) : ofDatum? (.ofJson r.toJson) = some r := by
  have written : r.toJson = .fields (Datum.written
      [("name", some (.text r.name)), ("reverse", some (.text r.reverse))]) := rfl
  rw [ofDatum?, written, Datum.record?_written .json ["name", "reverse"] _ rfl (by decide)]
  rfl

theorem strict : Strict ofDatum? (amissIn fields) := by
  intro j r read
  obtain ⟨values, given, read⟩ := Option.bind_eq_some_iff.1 read
  split at read
  · simp only [Option.bind_eq_bind, Option.bind_eq_some_iff] at read
    obtain ⟨_, first, _, second, -⟩ := read
    exact not_amissIn given (.cons ((Strict.any _).required first)
      (.cons ((Strict.any _).required second) .nil))
  · cases read

end RelationEntry

namespace NodeEntry

theorem ofDatum?_toJson (n : NodeEntry) : ofDatum? (.ofJson n.toJson) = some n := by
  have written : n.toJson = .fields (Datum.written
      [("id", some (.text n.id)), ("label", n.label.map .text), ("kind", n.kind.map .text)]) := by
    obtain ⟨id, _ | label, _ | kind⟩ := n <;> rfl
  rw [ofDatum?, written, Datum.record?_written .json ["id", "label", "kind"] _ rfl (by decide)]
  simp only [List.map_cons, List.map_nil, Option.bind_eq_bind, Option.bind_some,
    required_written text_written, optional_written text_written rfl]
  rfl

theorem strict : Strict ofDatum? (amissIn fields) := by
  intro j n read
  obtain ⟨values, given, read⟩ := Option.bind_eq_some_iff.1 read
  split at read
  · simp only [Option.bind_eq_bind, Option.bind_eq_some_iff] at read
    obtain ⟨_, first, _, second, _, third, -⟩ := read
    exact not_amissIn given (.cons ((Strict.any _).required first)
      (.cons ((Strict.any _).defaulted second) (.cons ((Strict.any _).defaulted third) .nil)))
  · cases read

end NodeEntry

namespace EdgeEntry

theorem ofDatum?_toJson (e : EdgeEntry) : ofDatum? (.ofJson e.toJson) = some e := by
  have written : e.toJson = .fields (Datum.written
      [("head", some (.text e.head)), ("tail", some (.text e.tail)),
        ("relation", some (.text e.relation))]) := rfl
  rw [ofDatum?, written, Datum.record?_written .json ["head", "tail", "relation"] _ rfl (by decide)]
  rfl

theorem strict : Strict ofDatum? (amissIn fields) := by
  intro j e read
  obtain ⟨values, given, read⟩ := Option.bind_eq_some_iff.1 read
  split at read
  · simp only [Option.bind_eq_bind, Option.bind_eq_some_iff] at read
    obtain ⟨_, first, _, second, _, third, -⟩ := read
    exact not_amissIn given (.cons ((Strict.any _).required first)
      (.cons ((Strict.any _).required second) (.cons ((Strict.any _).required third) .nil)))
  · cases read

end EdgeEntry

namespace GraphDocument

theorem ofDatum?_toJson (d : GraphDocument) : ofDatum? (.ofJson d.toJson) = some d := by
  have written : d.toJson = .fields (Datum.written
      [("relations", some (.array (d.relations.map RelationEntry.toJson))),
        ("nodes", some (.array (d.nodes.map NodeEntry.toJson))),
        ("edges", some (.array (d.edges.map EdgeEntry.toJson)))]) := rfl
  rw [ofDatum?, written,
    Datum.record?_written .json ["relations", "nodes", "edges"] _ rfl (by decide)]
  simp only [List.map_cons, List.map_nil, Option.bind_eq_bind, Option.bind_some,
    defaulted_written [] (list_written RelationEntry.ofDatum?_toJson),
    required_written (list_written NodeEntry.ofDatum?_toJson),
    defaulted_written [] (list_written EdgeEntry.ofDatum?_toJson)]
  rfl

theorem strict : Strict ofDatum? (amissIn fields) := by
  intro j d read
  obtain ⟨values, given, read⟩ := Option.bind_eq_some_iff.1 read
  split at read
  · simp only [Option.bind_eq_bind, Option.bind_eq_some_iff] at read
    obtain ⟨_, first, _, second, _, third, -⟩ := read
    exact not_amissIn given (.cons (RelationEntry.strict.items.defaulted first)
      (.cons (NodeEntry.strict.items.required second)
        (.cons (EdgeEntry.strict.items.defaulted third) .nil)))
  · cases read

end GraphDocument

end Document

namespace Path

variable (format : Format)

namespace EdgeDraft

theorem ofDatum?_toJson (d : EdgeDraft) : ofDatum? format (.ofJson d.toJson) = some d := by
  have written : d.toJson = .fields (Datum.written
      [("forward", some (.texts d.forward)), ("backward", some (.texts d.backward)),
        ("forward_sets", some (.texts d.forwardSets)),
        ("backward_sets", some (.texts d.backwardSets))]) := rfl
  rw [ofDatum?, written, Datum.record?_written format
    ["forward", "backward", "forward_sets", "backward_sets"] _ rfl (by decide)]
  simp only [List.map_cons, List.map_nil, Option.bind_eq_bind, Option.bind_some,
    defaulted_written [] texts_written]
  rfl

theorem strict : Strict (ofDatum? format) (amissIn fields) := by
  intro j d read
  obtain ⟨values, given, read⟩ := Option.bind_eq_some_iff.1 read
  split at read
  · simp only [Option.bind_eq_bind, Option.bind_eq_some_iff] at read
    obtain ⟨_, first, _, second, _, third, _, fourth, -⟩ := read
    exact not_amissIn given (.cons ((Strict.any _).defaulted first)
      (.cons ((Strict.any _).defaulted second) (.cons ((Strict.any _).defaulted third)
        (.cons ((Strict.any _).defaulted fourth) .nil))))
  · cases read

end EdgeDraft

namespace TermDraft

theorem ofDatum?_toJson (d : TermDraft) : ofDatum? format (.ofJson d.toJson) = some d := by
  have written : d.toJson = .fields (Datum.written
      [("edges", d.edges.map EdgeDraft.toJson), ("kinds", d.kinds.map .texts),
        ("recursive", some (.bool d.recursive)), ("cumulative", some (.bool d.cumulative))]) := by
    obtain ⟨_ | edges, _ | kinds, recursive, cumulative⟩ := d <;> rfl
  rw [ofDatum?, written, Datum.record?_written format
    ["edges", "kinds", "recursive", "cumulative"] _ rfl (by decide)]
  simp only [List.map_cons, List.map_nil, Option.bind_eq_bind, Option.bind_some,
    optional_written (EdgeDraft.ofDatum?_toJson format) rfl, optional_written texts_written rfl]
  rfl

theorem strict : Strict (ofDatum? format) (amissIn fields) := by
  intro j d read
  obtain ⟨values, given, read⟩ := Option.bind_eq_some_iff.1 read
  split at read
  · simp only [Option.bind_eq_bind, Option.bind_eq_some_iff] at read
    obtain ⟨_, first, _, second, _, third, _, fourth, -⟩ := read
    exact not_amissIn given (.cons ((EdgeDraft.strict format).nullable.defaulted first)
      (.cons ((Strict.any _).defaulted second) (.cons ((Strict.any _).defaulted third)
        (.cons ((Strict.any _).defaulted fourth) .nil))))
  · cases read

end TermDraft

namespace Draft

theorem ofDatum?_toJson (d : Draft) : ofDatum? format (.ofJson d.toJson) = some d := by
  have written : d.toJson = .fields (Datum.written
      [("name", d.name.map .text), ("terms", some (.array (d.terms.map TermDraft.toJson)))]) := by
    obtain ⟨_ | name, terms⟩ := d <;> rfl
  rw [ofDatum?, written, Datum.record?_written format ["name", "terms"] _ rfl (by decide)]
  simp only [List.map_cons, List.map_nil, Option.bind_eq_bind, Option.bind_some,
    optional_written text_written rfl,
    defaulted_written [] (list_written (TermDraft.ofDatum?_toJson format))]
  rfl

theorem strict : Strict (ofDatum? format) (amissIn fields) := by
  intro j d read
  obtain ⟨values, given, read⟩ := Option.bind_eq_some_iff.1 read
  split at read
  · simp only [Option.bind_eq_bind, Option.bind_eq_some_iff] at read
    obtain ⟨_, first, _, second, -⟩ := read
    exact not_amissIn given (.cons ((Strict.any _).defaulted first)
      (.cons ((TermDraft.strict format).items.defaulted second) .nil))
  · cases read

end Draft

end Path

-- What is amiss in an object is refused however deep the object is.
theorem documents_read_back :
    (∀ d : GraphDocument, GraphDocument.ofDatum? (.ofJson d.toJson) = some d) ∧
    (∀ (format : Format) (d : Path.Draft),
      Path.Draft.ofDatum? format (.ofJson d.toJson) = some d) ∧
    (∀ j, amissIn GraphDocument.fields j → GraphDocument.ofDatum? (.ofJson j) = none) ∧
    ∀ (format : Format) (j : Json), amissIn Path.Draft.fields j →
      Path.Draft.ofDatum? format (.ofJson j) = none :=
  ⟨GraphDocument.ofDatum?_toJson, Path.Draft.ofDatum?_toJson,
    fun _ => GraphDocument.strict.refuses, fun format _ => (Path.Draft.strict format).refuses⟩

theorem color_and_misspelling_refused :
    let document : Json :=
      .fields [("nodes", .array [.fields [("id", .text "a"), ("color", .text "red")]])]
    let draft : Json := .fields [("terms",
      .array [.fields [("edges", .fields [("foward", .texts ["call"])])]])]
    amissIn GraphDocument.fields document ∧ GraphDocument.ofDatum? (.ofJson document) = none ∧
      amissIn Path.Draft.fields draft ∧ Path.Draft.ofDatum? .json (.ofJson draft) = none := by
  intro document draft
  have color : amissIn GraphDocument.fields document := by decide
  have misspelling : amissIn Path.Draft.fields draft := by decide
  exact ⟨color, documents_read_back.2.2.1 document color, misspelling,
    documents_read_back.2.2.2 .json draft misspelling⟩

end DependencyAtlas
