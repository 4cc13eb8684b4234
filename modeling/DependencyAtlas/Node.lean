import Std.Data.ExtTreeSet

set_option autoImplicit false

namespace DependencyAtlas

inductive NodeKind where
  | directory | file | package | type | method | field | artifact | property | unknown
deriving DecidableEq, Repr, Inhabited

namespace NodeKind

def all : List NodeKind :=
  [directory, file, package, type, method, field, artifact, property, unknown]

def name : NodeKind → String
  | directory => "directory"
  | file => "file"
  | package => "package"
  | type => "type"
  | method => "method"
  | field => "field"
  | artifact => "artifact"
  | property => "property"
  | unknown => "unknown"

def ofName? (text : String) : Option NodeKind :=
  all.find? fun kind => kind.name == text.toLower

theorem mem_all (kind : NodeKind) : kind ∈ all := by
  cases kind <;> decide

theorem name_injective {a b : NodeKind} (h : a.name = b.name) : a = b := by
  cases a <;> cases b <;> first | rfl | exact absurd h (by decide)

end NodeKind

structure Node where
  id : String
  label : String
  kind : NodeKind
deriving DecidableEq, Repr, Inhabited

namespace Node

def named (id : String) : Node := ⟨id, id, .unknown⟩

-- Sets of nodes look at nothing but ids; `find?` is the view of them as partial maps.
def byId : Node → Node → Ordering := compareOn Node.id

instance : Std.TransCmp byId := inferInstanceAs (Std.TransCmp (compareOn Node.id))

theorem byId_eq_iff {a b : Node} : byId a b = .eq ↔ a.id = b.id := by
  simp [byId, compareOn]

end Node

abbrev NodeSet := Std.ExtTreeSet Node Node.byId

namespace NodeSet

def find? (s : NodeSet) (id : String) : Option Node := s.get? (Node.named id)

def add (s : NodeSet) (n : Node) : NodeSet := s.insert n

def ofNodes (nodes : List Node) : NodeSet := nodes.foldl add ∅

def singleton (n : Node) : NodeSet := add ∅ n

def keep (s : NodeSet) (p : Node → Bool) : NodeSet := s.filter p

def ids (s : NodeSet) : List String := s.toList.map (·.id)

def meet (a b : NodeSet) : NodeSet := a ∩ b

-- Of two nodes with one id the left one is kept.
def join (a b : NodeSet) : NodeSet := b ∪ a

def minus (a b : NodeSet) : NodeSet := a \ b

def symmDiff (a b : NodeSet) : NodeSet := (a.join b).keep fun n => a.contains n != b.contains n

theorem find?_eq_get? (s : NodeSet) (n : Node) : s.find? n.id = s.get? n :=
  Std.ExtTreeSet.get?_congr (by simp [Node.byId_eq_iff, Node.named])

theorem mem_iff {s : NodeSet} {n : Node} : n ∈ s ↔ (s.find? n.id).isSome := by
  rw [find?_eq_get?, Std.ExtTreeSet.mem_iff_isSome_get?]

theorem id_of_find? {s : NodeSet} {id : String} {n : Node} (h : s.find? id = some n) :
    n.id = id := by
  have h' := Std.ExtTreeSet.compare_get?_self (t := s) (k := Node.named id)
  rw [show s.get? (Node.named id) = some n from h] at h'
  simpa [Node.byId_eq_iff, Node.named] using h'

@[ext] theorem ext {s t : NodeSet} (h : ∀ id, s.find? id = t.find? id) : s = t :=
  Std.ExtTreeSet.ext_get? fun n => by rw [← find?_eq_get?, ← find?_eq_get?, h]

@[simp] theorem find?_empty (id : String) : (∅ : NodeSet).find? id = none := by
  simp [find?]

theorem find?_add (s : NodeSet) (n : Node) (id : String) :
    (s.add n).find? id = (s.find? id).or (if n.id = id then some n else none) := by
  unfold find? add
  rw [Std.ExtTreeSet.get?_insert]
  by_cases h : n.id = id
  · have same : s.get? n = s.get? (Node.named id) := by rw [← find?_eq_get?, h]; rfl
    have eq : n.byId (Node.named id) = .eq := by simp [Node.byId_eq_iff, Node.named, h]
    simp only [Std.ExtTreeSet.mem_iff_isSome_get?, same, eq]
    cases s.get? (Node.named id) <;> simp [h]
  · rw [if_neg (by simp [Node.byId_eq_iff, Node.named, h])]
    simp [h]

theorem find?_foldl_add (nodes : List Node) (s : NodeSet) (id : String) :
    (nodes.foldl add s).find? id = (s.find? id).or (nodes.find? (·.id == id)) := by
  induction nodes generalizing s with
  | nil => simp
  | cons n rest ih =>
    rw [List.foldl_cons, ih, find?_add, List.find?_cons]
    by_cases h : n.id = id <;> simp [h, beq_eq_false_iff_ne.2]

theorem find?_ofNodes (nodes : List Node) (id : String) :
    (ofNodes nodes).find? id = nodes.find? (·.id == id) := by
  simp [ofNodes, find?_foldl_add]

theorem ofNodes_append_singleton (nodes : List Node) (n : Node) :
    ofNodes (nodes ++ [n]) = (ofNodes nodes).add n := by
  simp [ofNodes]

theorem find?_singleton (n : Node) (id : String) :
    (singleton n).find? id = if n.id = id then some n else none := by
  simp [singleton, find?_add]

theorem find?_meet (a b : NodeSet) (id : String) :
    (a.meet b).find? id = if (b.find? id).isSome then a.find? id else none := by
  unfold find? meet
  rw [Std.ExtTreeSet.get?_inter]
  simp only [Std.ExtTreeSet.mem_iff_isSome_get?]

theorem find?_join (a b : NodeSet) (id : String) :
    (a.join b).find? id = (a.find? id).or (b.find? id) := by
  unfold find? join
  rw [Std.ExtTreeSet.get?_union]

theorem find?_minus (a b : NodeSet) (id : String) :
    (a.minus b).find? id = if (b.find? id).isSome then none else a.find? id := by
  unfold find? minus
  rw [Std.ExtTreeSet.get?_diff]
  simp only [Std.ExtTreeSet.mem_iff_isSome_get?]

theorem find?_keep (s : NodeSet) (p : Node → Bool) (id : String) :
    (s.keep p).find? id = (s.find? id).filter p := by
  unfold find? keep
  rw [Std.ExtTreeSet.get?_filter]

theorem contains_eq (s : NodeSet) (n : Node) : s.contains n = (s.find? n.id).isSome := by
  rw [find?_eq_get?, Std.ExtTreeSet.isSome_get?_eq_contains]

theorem find?_symmDiff (a b : NodeSet) (id : String) :
    (a.symmDiff b).find? id =
      if (b.find? id).isSome then if (a.find? id).isSome then none else b.find? id
      else a.find? id := by
  rw [symmDiff, find?_keep, find?_join]
  cases left : a.find? id with
  | none =>
    cases right : b.find? id with
    | none => rfl
    | some n => simp [contains_eq, id_of_find? right, left, right]
  | some n => cases right : b.find? id <;> simp [contains_eq, id_of_find? left, left, right]

theorem mem_toList {s : NodeSet} {n : Node} : n ∈ s.toList ↔ s.find? n.id = some n := by
  rw [find?_eq_get?]
  show n ∈ s.inner.keys ↔ s.inner.getKey? n = some n
  rw [← Std.ExtTreeMap.map_fst_toList_eq_keys, List.mem_map]
  constructor
  · rintro ⟨⟨m, u⟩, h, rfl⟩
    exact (Std.ExtTreeMap.mem_toList_iff_getKey?_eq_some_and_getElem?_eq_some.1 h).1
  · intro h
    refine ⟨(n, ()), ?_, rfl⟩
    refine Std.ExtTreeMap.mem_toList_iff_getKey?_eq_some_and_getElem?_eq_some.2 ⟨h, ?_⟩
    have : n ∈ s.inner := Std.ExtTreeMap.mem_iff_isSome_getKey?.2 (by simp [h])
    exact Std.ExtTreeMap.getElem?_eq_some_getElem this

theorem mem_ids {s : NodeSet} {id : String} : id ∈ s.ids ↔ (s.find? id).isSome := by
  simp only [ids, List.mem_map, mem_toList]
  constructor
  · rintro ⟨n, h, rfl⟩
    simp [h]
  · intro h
    obtain ⟨n, hn⟩ := Option.isSome_iff_exists.1 h
    exact ⟨n, by rw [id_of_find? hn, hn], id_of_find? hn⟩

theorem ids_increasing (s : NodeSet) : s.ids.Pairwise (compare · · = .lt) :=
  List.pairwise_map.2 (Std.ExtTreeSet.ordered_toList (t := s))

def Within (s t : NodeSet) : Prop := ∀ id, (s.find? id).isSome → (t.find? id).isSome

theorem Within.refl (s : NodeSet) : s.Within s := fun _ h => h

theorem Within.trans {s t u : NodeSet} (h₁ : s.Within t) (h₂ : t.Within u) : s.Within u :=
  fun id h => h₂ id (h₁ id h)

theorem within_join_left (s t : NodeSet) : s.Within (s.join t) := by
  intro id h
  simp [find?_join, h]

theorem within_join_right (s t : NodeSet) : t.Within (s.join t) := by
  intro id h
  simp [find?_join, h]

theorem Within.join {s t u : NodeSet} (hs : s.Within u) (ht : t.Within u) :
    (s.join t).Within u := by
  intro id h
  rw [find?_join, Option.isSome_or, Bool.or_eq_true] at h
  exact h.elim (hs id) (ht id)

theorem Within.size_le {s t : NodeSet} (h : s.Within t) : s.size ≤ t.size := by
  have shared : (s ∩ t).size = s.size :=
    Std.ExtTreeSet.size_inter_eq_size_left fun n hn => mem_iff.2 (h n.id (mem_iff.1 hn))
  exact shared ▸ Std.ExtTreeSet.size_inter_le_size_right

theorem size_minus_add_lt {s t : NodeSet} {n : Node} (hs : n ∈ s) (ht : n ∉ t) :
    (s.minus (t.add n)).size < (s.minus t).size := by
  rw [mem_iff] at hs ht
  have left : n ∈ s.minus t := by
    rw [mem_iff, find?_minus, if_neg ht]
    exact hs
  have eq : s.minus (t.add n) = (s.minus t).erase n := by
    refine ext fun id => ?_
    have erased : find? ((s.minus t).erase n) id =
        if n.id = id then none else (s.minus t).find? id := by
      rw [find?, Std.ExtTreeSet.get?_erase]
      simp only [Node.byId_eq_iff, Node.named]
      rfl
    rw [erased, find?_minus, find?_minus, find?_add]
    by_cases h : n.id = id <;> simp [h]
  have some : (s.minus t).size ≠ 0 := fun zero => by
    rw [Std.ExtTreeSet.eq_empty_iff_size_eq_zero.2 zero] at left
    exact Std.ExtTreeSet.not_mem_empty left
  rw [eq, Std.ExtTreeSet.size_erase, if_pos (Std.ExtTreeSet.contains_iff_mem.2 left)]
  omega

end NodeSet

end DependencyAtlas
