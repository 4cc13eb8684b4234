import DependencyAtlas.Graph

set_option autoImplicit false

namespace DependencyAtlas

section

variable {α : Type} [Ord α] [Std.TransOrd α]

def distinctBeyond (seen : Std.ExtTreeSet α) : List α → List α
  | [] => []
  | a :: rest =>
    if a ∈ seen then distinctBeyond seen rest else a :: distinctBeyond (seen.insert a) rest

def distinct (l : List α) : List α := distinctBeyond ∅ l

variable [Std.LawfulEqOrd α]

theorem mem_distinctBeyond {a : α} {seen : Std.ExtTreeSet α} {l : List α} :
    a ∈ distinctBeyond seen l ↔ a ∈ l ∧ a ∉ seen := by
  induction l generalizing seen with
  | nil => simp [distinctBeyond]
  | cons b rest ih =>
    rw [distinctBeyond]
    by_cases eq : a = b
    · subst eq
      by_cases h : a ∈ seen <;> simp [h, ih]
    · by_cases h : b ∈ seen <;> simp [h, ih, eq, Ne.symm eq]

@[simp] theorem mem_distinct {a : α} {l : List α} : a ∈ distinct l ↔ a ∈ l := by
  simp [distinct, mem_distinctBeyond]

theorem nodup_distinctBeyond (seen : Std.ExtTreeSet α) (l : List α) :
    (distinctBeyond seen l).Nodup := by
  induction l generalizing seen with
  | nil => simp [distinctBeyond]
  | cons a rest ih =>
    rw [distinctBeyond]
    split
    · exact ih seen
    · exact List.nodup_cons.2 ⟨by simp [mem_distinctBeyond], ih _⟩

theorem nodup_distinct (l : List α) : (distinct l).Nodup := nodup_distinctBeyond ∅ l

theorem distinctBeyond_eq_eraseDups [BEq α] [LawfulBEq α] (seen : Std.ExtTreeSet α) (l : List α) :
    distinctBeyond seen l = (l.filter fun a => !seen.contains a).eraseDups := by
  induction l generalizing seen with
  | nil => rfl
  | cons a rest ih =>
    rw [distinctBeyond]
    by_cases h : a ∈ seen
    · simp [h, ih]
    · have fresh : (!seen.contains a) = true := by
        rw [Bool.not_eq_true', ← Bool.not_eq_true, Std.ExtTreeSet.contains_iff_mem]
        exact h
      rw [if_neg h, ih, List.filter_cons, if_pos fresh, List.eraseDups_cons, List.filter_filter]
      congr 2
      refine List.filter_congr fun b _ => ?_
      have same : (compare a b == .eq) = (b == a) := by
        rw [Bool.eq_iff_iff, beq_iff_eq, beq_iff_eq, Std.LawfulEqCmp.compare_eq_iff_eq]
        exact eq_comm
      rw [Std.ExtTreeSet.contains_insert, same, Bool.not_or]

theorem distinct_eq_eraseDups [BEq α] [LawfulBEq α] (l : List α) : distinct l = l.eraseDups := by
  have all : l.filter (fun a => !(∅ : Std.ExtTreeSet α).contains a) = l :=
    List.filter_eq_self.2 (by simp)
  rw [distinct, distinctBeyond_eq_eraseDups, all]

end

structure Link where
  head : String
  tail : String
  relation : Relation
deriving DecidableEq, Repr

namespace Link

def order : Link → Link → Ordering :=
  compareLex (compareOn head) (compareLex (compareOn tail) (compareOn relation))

instance : Ord Link := ⟨order⟩

instance : Std.TransOrd Link := inferInstanceAs
  (Std.TransCmp (compareLex (compareOn head) (compareLex (compareOn tail) (compareOn relation))))

instance : Std.LawfulEqOrd Link where
  eq_of_compare {a b} h := by
    have parts := compareLex_eq_eq.1 (show order a b = .eq from h)
    have inner := compareLex_eq_eq.1 parts.2
    simp only [compareOn, Std.LawfulEqCmp.compare_eq_iff_eq] at parts inner
    cases a; cases b; simp_all

end Link

def Edge.link (e : Edge) : Link := ⟨e.head.id, e.tail.id, e.relation⟩

namespace Graph

structure Builder where
  nodes : Array Node
  links : Array Link
  known : NodeSet
  known_eq : known = NodeSet.ofNodes nodes.toList
  ids_nodup : (nodes.toList.map (·.id)).Nodup

namespace Builder

def empty : Builder where
  nodes := #[]
  links := #[]
  known := ∅
  known_eq := rfl
  ids_nodup := List.nodup_nil

-- Adding a node again changes nothing.
def add (b : Builder) (n : Node) : Except ModelError Builder :=
  match found : b.known.find? n.id with
  | some m => if m = n then .ok b else .error (.conflictingNode n.id)
  | none => .ok { b with
      nodes := b.nodes.push n
      known := b.known.add n
      known_eq := by rw [Array.toList_push, NodeSet.ofNodes_append_singleton, ← b.known_eq]
      ids_nodup := by
        rw [b.known_eq, NodeSet.find?_ofNodes, List.find?_eq_none] at found
        rw [Array.toList_push, List.map_append, List.nodup_append]
        refine ⟨b.ids_nodup, by simp, ?_⟩
        simp only [List.mem_map, List.map_cons, List.map_nil, List.mem_singleton]
        rintro _ ⟨m, hm, rfl⟩ _ rfl
        simpa using found m hm }

def connect (b : Builder) (l : Link) : Builder := { b with links := b.links.push l }

-- A missing head is reported before a missing tail.
def resolve (b : Builder) (l : Link) : Except ModelError Edge :=
  match b.known.find? l.head, b.known.find? l.tail with
  | some head, some tail => .ok ⟨head, tail, l.relation⟩
  | none, _ => .error (.danglingEdge l.head l.tail l.relation.forward l.head)
  | some _, none => .error (.danglingEdge l.head l.tail l.relation.forward l.tail)

theorem mem_of_find?_known {b : Builder} {id : String} {n : Node}
    (h : b.known.find? id = some n) : n ∈ b.nodes.toList ∧ n.id = id := by
  rw [b.known_eq, NodeSet.find?_ofNodes] at h
  exact ⟨List.mem_of_find?_eq_some h, by simpa using List.find?_some h⟩

theorem of_resolve {b : Builder} {l : Link} {e : Edge} (h : b.resolve l = .ok e) :
    e.link = l ∧ e.head ∈ b.nodes.toList ∧ e.tail ∈ b.nodes.toList := by
  unfold resolve at h
  split at h
  · rename_i head tail hh ht
    cases h
    have hh := mem_of_find?_known hh
    have ht := mem_of_find?_known ht
    exact ⟨by simp [Edge.link, hh.2, ht.2], hh.1, ht.1⟩
  all_goals cases h

theorem of_mapM_resolve {b : Builder} {links : List Link} {edges : List Edge}
    (h : links.mapM b.resolve = .ok edges) :
    edges.map (·.link) = links ∧
      ∀ e ∈ edges, e.head ∈ b.nodes.toList ∧ e.tail ∈ b.nodes.toList := by
  induction links generalizing edges with
  | nil =>
    cases h
    simp
  | cons l rest ih =>
    rw [List.mapM_cons] at h
    cases he : b.resolve l with
    | error _ => rw [he] at h; cases h
    | ok e => cases hr : rest.mapM b.resolve with
      | error _ => rw [he, hr] at h; cases h
      | ok es =>
        rw [he, hr] at h
        cases h
        have ⟨link, ends⟩ := of_resolve he
        have ⟨links, all⟩ := ih hr
        exact ⟨by simp [link, links], List.forall_mem_cons.2 ⟨ends, all⟩⟩

def build (b : Builder) : Except ModelError Graph :=
  match h : (distinct b.links.toList).mapM b.resolve with
  | .error e => .error e
  | .ok edges => .ok {
      nodes := b.nodes.toList
      edges := edges
      ids_nodup := b.ids_nodup
      edges_nodup := by
        have links := nodup_distinct b.links.toList
        rw [← (of_mapM_resolve h).1] at links
        exact List.Pairwise.of_map Edge.link (fun _ _ ne eq => ne (congrArg _ eq)) links
      ends_mem := (of_mapM_resolve h).2 }

def builtEvent (g : Graph) : Event :=
  ⟨.debug, s!"Built dependency graph: {g.nodeCount} nodes, {g.edgeCount} edges"⟩

end Builder

end Graph

end DependencyAtlas
