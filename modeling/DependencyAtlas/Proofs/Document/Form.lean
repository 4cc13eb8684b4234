import DependencyAtlas.Document.Rejection
import DependencyAtlas.Proofs.Filing
import Mathlib.Data.List.Nodup

set_option autoImplicit false

namespace DependencyAtlas

open Document (Field amissIn amissInItems)

theorem mapM_eq_some_iff {α β : Type} {f : α → Option β} {xs : List α} {ys : List β} :
    xs.mapM f = some ys ↔ List.Forall₂ (fun x y => f x = some y) xs ys := by
  induction xs generalizing ys with
  | nil => simp [eq_comm]
  | cons x rest ih =>
    rw [List.mapM_cons, List.forall₂_cons_left_iff, Option.bind_eq_bind, Option.bind_eq_some_iff]
    simp only [Option.bind_eq_bind, Option.bind_eq_some_iff, ih, Option.pure_def, Option.some.injEq]
    constructor
    · intro read
      obtain ⟨y, first, others, each, rfl⟩ := read
      exact ⟨y, others, first, each, rfl⟩
    · intro read
      obtain ⟨y, others, first, each, rfl⟩ := read
      exact ⟨y, first, others, each, rfl⟩

namespace Datum

theorem ofItems_eq_map (items : List Json) : ofItems items = items.map ofJson := by
  induction items with
  | nil => rfl
  | cons v rest ih => rw [ofItems, ih, List.map_cons]

theorem ofFields_eq_map (entries : List (Json.Text × Json)) :
    ofFields entries = entries.map fun e => (e.1, ofJson e.2) := by
  induction entries with
  | nil => rfl
  | cons e rest ih =>
    obtain ⟨k, v⟩ := e
    rw [ofFields, ih, List.map_cons]

theorem ofJson_array (items : List Json) : ofJson (.array items) = .list (items.map ofJson) := by
  rw [ofJson, ofItems_eq_map]

theorem ofJson_object (entries : List (Json.Text × Json)) :
    ofJson (.object entries) = .fields (entries.map fun e => (e.1, ofJson e.2)) := by
  rw [ofJson, ofFields_eq_map]

variable {α : Type} {format : Format}

-- A key that is broken is the key of no field.
theorem entries?_ofJson_object {entries : List (Json.Text × Json)} {given : List (String × Datum)}
    (read : (ofJson (.object entries)).entries? = some given) :
      (entries.map fun e => (e.1, ofJson e.2)) = given.map fun e => (some e.1, e.2) := by
  rw [ofJson_object, entries?, mapM_eq_some_iff, List.forall₂_map_left_iff] at read
  rw [← List.forall₂_eq_eq_eq, List.forall₂_map_left_iff, List.forall₂_map_right_iff]
  refine read.imp fun e g same => ?_
  obtain ⟨k, key, rfl⟩ := Option.map_eq_some_iff.1 same
  rw [key]

theorem entries?_ofJson_fields (l : List (String × Json)) :
    (ofJson (.fields l)).entries? = some (l.map fun e => (e.1, ofJson e.2)) := by
  rw [Json.fields, ofJson_object, entries?, mapM_eq_some_iff]
  simp

theorem find?_eq_some_iff_of_nodup {given : List (String × Datum)}
    (distinct : (given.map (·.1)).Nodup) {k : String} {d : Datum} :
    (given.find? (·.1 == k)).map (·.2) = some d ↔ (k, d) ∈ given := by
  rw [map_find?_eq_some_iff]
  · constructor
    · intro found
      obtain ⟨⟨_, _⟩, listed, same, rfl⟩ := found
      rwa [← beq_iff_eq.1 same]
    · intro listed
      exact ⟨(k, d), listed, beq_self_eq_true k, rfl⟩
  · intro a ha b hb first second
    rw [List.inj_on_of_nodup_map distinct ha hb (by simp_all)]

def written (l : List (String × Option Json)) : List (String × Json) :=
  l.filterMap fun f => f.2.map (f.1, ·)

theorem mem_written {l : List (String × Option Json)} {k : String} {v : Json} :
    (k, v) ∈ written l ↔ (k, some v) ∈ l := by
  simp only [written, List.mem_filterMap, Option.map_eq_some_iff, Prod.mk.injEq]
  constructor
  · intro listed
    obtain ⟨⟨_, _⟩, hf, _, rfl, rfl, rfl⟩ := listed
    exact hf
  · intro listed
    exact ⟨(k, some v), listed, v, rfl, rfl, rfl⟩

theorem written_keys (l : List (String × Option Json)) :
    ((written l).map (·.1)).Sublist (l.map (·.1)) := by
  induction l with
  | nil => exact .slnil
  | cons f rest ih =>
    obtain ⟨k, _ | v⟩ := f
    · exact ih.cons k
    · exact ih.cons_cons k

theorem record?_written (format : Format) (names : List String) (l : List (String × Option Json))
    (listed : l.map (·.1) = names) (distinct : names.Nodup) :
    (ofJson (.fields (written l))).record? format names = some (l.map fun f => f.2.map ofJson) := by
  subst listed
  have keys : ((written l).map fun e => (e.1, ofJson e.2)).map (·.1) = (written l).map (·.1) := by
    rw [List.map_map]
    rfl
  have known : ((written l).map fun e => (e.1, ofJson e.2)).all
      (fun e => (l.map (·.1)).contains e.1) := by
    rw [List.all_eq_true]
    intro e he
    rw [List.contains_iff_mem]
    exact (written_keys l).subset (keys ▸ List.mem_map_of_mem he)
  have once : (((written l).map fun e => (e.1, ofJson e.2)).map (·.1)).Nodup := by
    rw [keys]
    exact (written_keys l).nodup distinct
  have values : (l.map (·.1)).map (fun name =>
      (((written l).map fun e => (e.1, ofJson e.2)).find? (·.1 == name)).map (·.2)) =
      l.map fun f => f.2.map ofJson := by
    rw [List.map_map]
    refine List.map_congr_left fun f hf => Option.ext fun d => ?_
    rw [Function.comp_apply, find?_eq_some_iff_of_nodup once, List.mem_map, Option.map_eq_some_iff]
    constructor
    · intro listed
      obtain ⟨⟨k, v⟩, hv, same⟩ := listed
      cases same
      have := List.inj_on_of_nodup_map distinct (mem_written.1 hv) hf rfl
      exact ⟨v, by rw [← this], rfl⟩
    · intro present
      obtain ⟨v, hv, rfl⟩ := present
      exact ⟨(f.1, v), mem_written.2 (hv ▸ hf), rfl⟩
  have entries := entries?_ofJson_fields (written l)
  rw [Json.fields, ofJson_object] at entries ⊢
  simp only [record?, pick?, entries, Option.bind_eq_bind, Option.bind_some, known, once, if_true,
    values]

theorem record?_ofJson_object {entries : List (Json.Text × Json)} {names : List String}
    {values : List (Option Datum)}
    (read : (ofJson (.object entries)).record? format names = some values) :
    ∃ given : List (String × Datum),
      (entries.map fun e => (e.1, ofJson e.2)) = (given.map fun e => (some e.1, e.2)) ∧
      (∀ e ∈ given, e.1 ∈ names) ∧ (given.map (·.1)).Nodup ∧
      values = names.map fun name => (given.find? (·.1 == name)).map (·.2) := by
  rw [ofJson_object] at read
  obtain ⟨given, same, read⟩ := Option.bind_eq_some_iff.1 read
  rw [← ofJson_object] at same
  obtain ⟨known, read⟩ := Option.ite_none_right_eq_some.1 read
  obtain ⟨once, read⟩ := Option.ite_none_right_eq_some.1 read
  refine ⟨given, entries?_ofJson_object same, fun e he => ?_, once, (Option.some.inj read).symm⟩
  exact List.contains_iff_mem.1 (List.all_eq_true.1 known e he)

end Datum

namespace Document

variable {α : Type} {format : Format}

-- The decoder takes nothing in which something is amiss.
def Strict (decode : Datum → Option α) (amiss : Json → Bool) : Prop :=
  ∀ j a, decode (.ofJson j) = some a → amiss j = false

theorem Strict.refuses {decode : Datum → Option α} {amiss : Json → Bool}
    (strict : Strict decode amiss) {j : Json} (flaw : amiss j) : decode (.ofJson j) = none := by
  refine Option.eq_none_iff_forall_ne_some.2 fun a read => ?_
  rw [strict j a read] at flaw
  cases flaw

theorem Strict.any (decode : Datum → Option α) : Strict decode fun _ => false := fun _ _ _ => rfl

theorem Strict.nullable {decode : Datum → Option α} {fields : List Field}
    (strict : Strict decode (amissIn fields)) :
    Strict (Datum.nullable? decode) (amissIn fields) := by
  intro j a read
  cases j with
  | null => rfl
  | _ =>
    obtain ⟨b, read, -⟩ := Option.map_eq_some_iff.1 read
    exact strict _ b read

theorem Strict.items {item : Datum → Option α} {amiss : Json → Bool} (strict : Strict item amiss) :
    Strict (Datum.list? item) (amissInItems amiss) := by
  intro j a read
  cases j with
  | array items =>
    rw [Datum.ofJson_array, Datum.list?, mapM_eq_some_iff, List.forall₂_map_left_iff] at read
    refine List.any_eq_false.2 fun v hv => ?_
    obtain ⟨i, inside, rfl⟩ := List.getElem_of_mem hv
    have within := read.length_eq ▸ inside
    exact Bool.not_eq_true _ ▸ strict _ a[i] (read.get inside within)
  | _ => rfl

def Field.Admits (f : Field) : Option Datum → Prop
  | none => f.required = false
  | some d => ∀ j, d = .ofJson j → f.amiss j = false

theorem Strict.required {decode : Datum → Option α} {name : String} {amiss : Json → Bool}
    (strict : Strict decode amiss) {given : Option Datum} {a : α}
    (read : Datum.required decode given = some a) :
    Field.Admits { name, required := true, amiss } given := by
  cases given with
  | none => cases read
  | some d =>
    intro j same
    rw [same] at read
    exact strict j a read

theorem Strict.defaulted {decode : Datum → Option α} {fallback : α} {name : String}
    {amiss : Json → Bool} (strict : Strict decode amiss) {given : Option Datum} {a : α}
    (read : Datum.defaulted fallback decode given = some a) :
    Field.Admits { name, amiss } given := by
  cases given with
  | none => rfl
  | some d =>
    intro j same
    rw [same] at read
    exact strict j a read

section Records

variable {fields : List Field} {values : List (Option Datum)}

theorem amissIn_object_eq_false_iff {entries : List (Json.Text × Json)} :
    amissIn fields (.object entries) = false ↔
      (∀ e ∈ entries, ∃ f ∈ fields, e.1 = some f.name) ∧
      (∀ f ∈ fields, f.required → ∃ e ∈ entries, e.1 = some f.name) ∧
      ∀ f ∈ fields, ∀ e ∈ entries, e.1 = some f.name → f.amiss e.2 = false := by
  rw [amissIn, Bool.or_eq_false_iff, Bool.or_eq_false_iff, and_assoc]
  refine and_congr ?_ (and_congr ?_ ?_)
  · simp
  · simp
  · simp only [List.any_eq_false, Bool.and_eq_true, beq_iff_eq, not_and, Bool.not_eq_true]

theorem not_amissIn_object {entries : List (Json.Text × Json)}
    (read : (Datum.ofJson (.object entries)).record? format (fields.map (·.name)) = some values)
    (admitted : List.Forall₂ Field.Admits fields values) :
    amissIn fields (.object entries) = false := by
  obtain ⟨given, same, known, once, rfl⟩ := Datum.record?_ofJson_object read
  rw [List.map_map, List.forall₂_map_right_iff, List.forall₂_same] at admitted
  have listed : ∀ e ∈ entries, ∃ k, e.1 = some k ∧ (k, Datum.ofJson e.2) ∈ given := by
    intro e he
    obtain ⟨g, hg, eq⟩ := List.mem_map.1 (same ▸ List.mem_map_of_mem he)
    obtain ⟨key, value⟩ := Prod.mk.inj eq
    exact ⟨g.1, key.symm, value ▸ hg⟩
  refine amissIn_object_eq_false_iff.2 ⟨?_, ?_, ?_⟩
  · intro e he
    obtain ⟨k, key, hk⟩ := listed e he
    obtain ⟨f, hf, name⟩ := List.mem_map.1 (known _ hk)
    exact ⟨f, hf, key.trans (congrArg some name.symm)⟩
  · intro f hf required
    have own := admitted f hf
    cases found : (given.find? (·.1 == f.name)).map (·.2) with
    | none =>
      rw [Function.comp_apply, found] at own
      exact absurd (own.symm.trans required) Bool.false_ne_true
    | some d =>
      have hd := (Datum.find?_eq_some_iff_of_nodup once).1 found
      have named : (some f.name, d) ∈ entries.map fun e => (e.1, Datum.ofJson e.2) := by
        rw [same]
        exact List.mem_map.2 ⟨(f.name, d), hd, rfl⟩
      obtain ⟨e, he, eq⟩ := List.mem_map.1 named
      exact ⟨e, he, congrArg Prod.fst eq⟩
  · intro f hf e he key
    obtain ⟨k, other, hk⟩ := listed e he
    rw [Option.some.inj (other.symm.trans key)] at hk
    have own := admitted f hf
    rw [Function.comp_apply, (Datum.find?_eq_some_iff_of_nodup once).2 hk] at own
    exact own e.2 rfl

theorem not_amissIn_array {items : List Json}
    (read : (Datum.ofJson (.array items)).record? format (fields.map (·.name)) = some values)
    (admitted : List.Forall₂ Field.Admits fields values) :
    amissIn fields (.array items) = false := by
  rw [Datum.ofJson_array] at read
  have padded := Option.some.inj (Option.ite_none_right_eq_some.1 read).2
  refine List.any_eq_false.2 fun pair hpair => ?_
  obtain ⟨i, inside, rfl⟩ := List.getElem_of_mem hpair
  rw [List.length_zip, Nat.lt_min] at inside
  have within : i < values.length := admitted.length_eq ▸ inside.1
  have own := admitted.get inside.1 within
  have value : values[i] = some (Datum.ofJson items[i]) := by
    simp [← padded, Datum.pad, inside]
  rw [List.get_eq_getElem, List.get_eq_getElem, value] at own
  rw [List.getElem_zip]
  exact Bool.not_eq_true _ ▸ own items[i] rfl

theorem not_amissIn {j : Json}
    (read : (Datum.ofJson j).record? format (fields.map (·.name)) = some values)
    (admitted : List.Forall₂ Field.Admits fields values) : amissIn fields j = false := by
  cases j with
  | object entries => exact not_amissIn_object read admitted
  | array items => exact not_amissIn_array read admitted
  | _ => rfl

end Records

section Written

variable {β : Type} {decode : Datum → Option β} {write : β → Json}

theorem required_written (reads : ∀ b, decode (.ofJson (write b)) = some b) (b : β) :
    Datum.required decode ((some (write b)).map .ofJson) = some b := reads b

theorem defaulted_written (fallback : β) (reads : ∀ b, decode (.ofJson (write b)) = some b)
    (b : β) : Datum.defaulted fallback decode ((some (write b)).map .ofJson) = some b :=
  reads b

-- Null would be read as nothing given.
theorem optional_written (reads : ∀ b, decode (.ofJson (write b)) = some b)
    (refuses : decode .null = none) (given : Option β) :
    Datum.defaulted none (Datum.nullable? decode) ((given.map write).map .ofJson) = some given := by
  cases given with
  | none => rfl
  | some b =>
    have read := reads b
    change Datum.nullable? decode (.ofJson (write b)) = some (some b)
    unfold Datum.nullable?
    split
    · next null =>
      rw [null, refuses] at read
      cases read
    · rw [read, Option.map_some]

theorem list_written (reads : ∀ b, decode (.ofJson (write b)) = some b) (l : List β) :
    Datum.list? decode (.ofJson (.array (l.map write))) = some l := by
  rw [Datum.ofJson_array, Datum.list?, mapM_eq_some_iff, List.map_map, List.forall₂_map_left_iff,
    List.forall₂_same]
  exact fun b _ => reads b

theorem text_written (s : String) : Datum.text? (.ofJson (.text s)) = some s := rfl

theorem texts_written (l : List String) : Datum.texts? (.ofJson (.texts l)) = some l :=
  list_written text_written l

end Written

end Document

end DependencyAtlas
