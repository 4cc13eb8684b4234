import DependencyAtlas.Graph.Builder
import DependencyAtlas.Proofs.Filing
import Mathlib.Data.List.Basic
import Mathlib.Data.List.Induction
import Mathlib.Data.List.Nodup

set_option autoImplicit false

namespace DependencyAtlas

section

variable {α β : Type}

theorem eraseDups_concat [BEq α] [LawfulBEq α] (l : List α) (a : α) :
    (l ++ [a]).eraseDups = if a ∈ l then l.eraseDups else l.eraseDups ++ [a] := by
  rw [List.eraseDups_append]
  by_cases h : a ∈ l <;> simp [List.removeAll, List.eraseDups_cons, h]

theorem eraseDups_map [BEq α] [LawfulBEq α] [BEq β] [LawfulBEq β] {f : α → β}
    (injective : f.Injective) (l : List α) : (l.map f).eraseDups = l.eraseDups.map f := by
  induction l using List.reverseRecOn with
  | nil => rfl
  | append_singleton l a ih =>
    have same : f a ∈ l.map f ↔ a ∈ l := List.mem_map_of_injective injective
    rw [List.map_append, List.map_singleton, eraseDups_concat, eraseDups_concat, ih]
    by_cases h : a ∈ l
    · rw [if_pos h, if_pos (same.2 h)]
    · rw [if_neg h, if_neg (h ∘ same.1), List.map_append, List.map_singleton]

theorem eraseDups_of_nodup [BEq α] [LawfulBEq α] {l : List α} (nodup : l.Nodup) :
    l.eraseDups = l := by
  induction l using List.reverseRecOn with
  | nil => rfl
  | append_singleton l a ih =>
    have parts := List.nodup_append.1 nodup
    have fresh : a ∉ l := fun known => parts.2.2 a known a List.mem_cons_self rfl
    rw [eraseDups_concat, if_neg fresh, ih parts.1]

variable [Ord α] [Std.TransOrd α] [Std.LawfulEqOrd α]

theorem find?_distinctBeyond {p : α → Bool} {seen : Std.ExtTreeSet α} {l : List α}
    (passed : ∀ a ∈ seen, p a = false) : (distinctBeyond seen l).find? p = l.find? p := by
  induction l generalizing seen with
  | nil => rfl
  | cons a rest ih =>
    rw [distinctBeyond]
    split
    · next known => rw [List.find?_cons_of_neg (by simp [passed a known]), ih passed]
    · by_cases holds : p a
      · rw [List.find?_cons_of_pos holds, List.find?_cons_of_pos holds]
      · rw [List.find?_cons_of_neg holds, List.find?_cons_of_neg holds, ih]
        intro b hb
        rcases Std.ExtTreeSet.mem_insert.1 hb with same | known
        · rw [← Std.LawfulEqCmp.eq_of_compare same]
          exact Bool.eq_false_iff.2 holds
        · exact passed b known

theorem find?_distinct (p : α → Bool) (l : List α) : (distinct l).find? p = l.find? p :=
  find?_distinctBeyond (by simp)

-- Repetitions come too late to be the first failure.
theorem mapM_distinct_eq_error_iff {ε : Type} {f : α → Except ε β} {xs : List α} {e : ε} :
    (distinct xs).mapM f = .error e ↔ xs.mapM f = .error e := by
  rw [mapM_eq_error_iff_find?, mapM_eq_error_iff_find?, find?_distinct]

end

namespace Graph.Builder

theorem filing : Filing add (fun b id => b.known.find? id) Node.id id where
  taken_iff b n := by
    dsimp only [Agrees]
    unfold add
    split
    · next m found =>
      rw [found]
      split
      · next same => simp [same]
      · next other => simp [other]
    · next absent => simp [absent]
  look_taken b n after taken id := by
    unfold add at taken
    split at taken
    · next m found =>
      split at taken
      · next same =>
        cases taken
        by_cases here : n.id = id
        · rw [← here, found, Option.some_or]
        · rw [if_neg here, Option.or_none]
      · cases taken
    · cases taken
      exact NodeSet.find?_add b.known n id

theorem links_add {b after : Builder} {n : Node} (added : b.add n = .ok after) :
    after.links = b.links := by
  unfold add at added
  split at added
  · split at added
    · cases added
      rfl
    · cases added
  · cases added
    rfl

theorem links_foldlM_add {nodes : List Node} {b after : Builder}
    (added : nodes.foldlM add b = .ok after) : after.links = b.links :=
  view_foldlM (fun _ _ _ => links_add) added

theorem foldl_connect (b : Builder) (links : List Link) :
    links.foldl connect b = { b with links := b.links ++ links.toArray } := by
  induction links generalizing b with
  | nil => simp
  | cons l rest ih =>
    rw [List.foldl_cons, ih]
    simp [connect]

variable {b after : Builder} {n : Node} {l : Link} {e : Edge} {g : Graph} {error : ModelError}

theorem find?_known_eq_some_iff {id : String} :
    b.known.find? id = some n ↔ n ∈ b.nodes.toList ∧ n.id = id := by
  have unique : ∀ x ∈ b.nodes.toList, ∀ y ∈ b.nodes.toList, x.id == id → y.id == id → x = y := by
    intro x hx y hy first second
    have same : x.id = y.id := (eq_of_beq first).trans (eq_of_beq second).symm
    exact List.inj_on_of_nodup_map b.ids_nodup hx hy same
  rw [b.known_eq, NodeSet.find?_ofNodes, find?_eq_some_iff_of_unique unique, beq_iff_eq]

theorem isSome_find?_known {id : String} :
    (b.known.find? id).isSome ↔ id ∈ b.nodes.toList.map Node.id := by
  simp only [Option.isSome_iff_exists, find?_known_eq_some_iff, List.mem_map]

theorem add_eq_error_iff :
    b.add n = .error error ↔
      (∃ m ∈ b.nodes.toList, m.id = n.id ∧ m ≠ n) ∧ error = .conflictingNode n.id := by
  have other : (∃ m ∈ b.nodes.toList, m.id = n.id ∧ m ≠ n) ↔
      ∃ m, b.known.find? n.id = some m ∧ m ≠ n := by
    simp only [find?_known_eq_some_iff, and_assoc]
  rw [other]
  unfold add
  split
  · next m found =>
    rw [found]
    split
    · next same => simp [same]
    · next differ => simp [differ, eq_comm (b := error)]
  · next absent => simp [absent]

-- If the nodes are the distinct ones of a list, they are so of the list with the node at its end.
theorem nodes_add {taken : List Node} (listed : b.nodes.toList = taken.eraseDups)
    (added : b.add n = .ok after) : after.nodes.toList = (taken ++ [n]).eraseDups := by
  have mem_taken (m : Node) : m ∈ taken ↔ m ∈ b.nodes.toList := by
    rw [listed, List.mem_eraseDups]
  rw [eraseDups_concat, ← listed]
  unfold add at added
  split at added
  · next m found =>
    split at added
    · next same =>
      cases added
      have known : n ∈ taken := same ▸ (mem_taken m).2 (find?_known_eq_some_iff.1 found).1
      rw [if_pos known]
    · cases added
  · next absent =>
    cases added
    have fresh : n ∉ taken := by
      intro known
      rw [find?_known_eq_some_iff.2 ⟨(mem_taken n).1 known, rfl⟩] at absent
      cases absent
    rw [if_neg fresh, Array.toList_push]

theorem nodes_foldlM_add {nodes taken : List Node} (listed : b.nodes.toList = taken.eraseDups)
    (added : nodes.foldlM add b = .ok after) : after.nodes.toList = (taken ++ nodes).eraseDups := by
  induction nodes generalizing b taken with
  | nil =>
    cases added
    rw [List.append_nil, listed]
  | cons n rest ih =>
    rw [List.foldlM_cons] at added
    obtain ⟨next, first, others⟩ := bind_eq_ok_iff.1 added
    rw [ih (nodes_add listed first) others, List.append_assoc, List.singleton_append]

theorem resolve_eq_ok_iff :
    b.resolve l = .ok e ↔ b.known.find? l.head = some e.head ∧ b.known.find? l.tail = some e.tail ∧
      l.relation = e.relation := by
  unfold resolve
  split
  · next head tail foundHead foundTail =>
    rw [foundHead, foundTail]
    cases e
    simp
  · next absent => simp [absent]
  · next absent => simp [absent]

theorem exists_resolve_iff :
    (∃ e, b.resolve l = .ok e) ↔
      (b.known.find? l.head).isSome ∧ (b.known.find? l.tail).isSome := by
  simp only [resolve_eq_ok_iff, Option.isSome_iff_exists]
  constructor
  · intro resolved
    obtain ⟨e, head, tail, -⟩ := resolved
    exact ⟨⟨_, head⟩, _, tail⟩
  · intro known
    obtain ⟨⟨head, hh⟩, tail, ht⟩ := known
    exact ⟨⟨head, tail, l.relation⟩, hh, ht, rfl⟩

theorem resolve_eq_error_iff :
    b.resolve l = .error error ↔
      ¬ ((b.known.find? l.head).isSome ∧ (b.known.find? l.tail).isSome) ∧
        error = .danglingEdge l.head l.tail l.relation.forward
          (if (b.known.find? l.head).isSome then l.tail else l.head) := by
  unfold resolve
  split
  · next head tail foundHead foundTail => simp [foundHead, foundTail]
  · next absent => simp [absent, eq_comm (b := error)]
  · next head foundHead absent => simp [foundHead, absent, eq_comm (b := error)]

theorem of_build (built : b.build = .ok g) :
    g.nodes = b.nodes.toList ∧ (distinct b.links.toList).mapM b.resolve = .ok g.edges := by
  unfold build at built
  split at built
  · cases built
  · next edges resolved =>
    cases built
    exact ⟨rfl, resolved⟩

theorem build_eq_ok_iff :
    b.build = .ok g ↔
      g.nodes = b.nodes.toList ∧ (distinct b.links.toList).mapM b.resolve = .ok g.edges := by
  refine ⟨of_build, fun holds => ?_⟩
  obtain ⟨nodes, edges⟩ := holds
  unfold build
  split
  · next failed => cases failed.symm.trans edges
  · next found resolved =>
    have same : found = g.edges := Except.ok.inj (resolved.symm.trans edges)
    exact congrArg Except.ok (Graph.ext nodes.symm same)

theorem exists_build_iff :
    (∃ g, b.build = .ok g) ↔ ∀ l ∈ b.links.toList,
      (b.known.find? l.head).isSome ∧ (b.known.find? l.tail).isSome := by
  have ends : (∃ edges, (distinct b.links.toList).mapM b.resolve = .ok edges) ↔
      ∀ l ∈ b.links.toList, (b.known.find? l.head).isSome ∧ (b.known.find? l.tail).isSome := by
    simp only [exists_mapM_iff, mem_distinct, exists_resolve_iff]
  rw [← ends]
  constructor
  · intro built
    obtain ⟨g, built⟩ := built
    exact ⟨g.edges, (of_build built).2⟩
  · intro resolved
    obtain ⟨edges, resolved⟩ := resolved
    unfold build
    split
    · next failed =>
      rw [resolved] at failed
      cases failed
    · exact ⟨_, rfl⟩

-- The links are resolved without repetitions, but the first failure is the first of all links.
theorem build_eq_error_iff :
    b.build = .error error ↔ ∃ before l after, b.links.toList = before ++ l :: after ∧
      (∀ k ∈ before, (b.known.find? k.head).isSome ∧ (b.known.find? k.tail).isSome) ∧
        b.resolve l = .error error := by
  have failed : b.build = .error error ↔
      (distinct b.links.toList).mapM b.resolve = .error error := by
    unfold build
    split
    · next first => simp [first]
    · next resolved => simp [resolved]
  rw [failed, mapM_distinct_eq_error_iff, mapM_eq_error_iff]
  simp only [exists_resolve_iff]

theorem links_of_build (built : b.build = .ok g) :
    g.edges.map Edge.link = b.links.toList.eraseDups := by
  rw [(of_mapM_resolve (of_build built).2).1, distinct_eq_eraseDups]

theorem node?_of_build (built : b.build = .ok g) (id : String) :
    g.node? id = b.known.find? id := by
  rw [node?_eq, (of_build built).1, b.known_eq, NodeSet.find?_ofNodes]

theorem mem_edges_of_build (built : b.build = .ok g) (e : Edge) :
    e ∈ g.edges ↔ ∃ l ∈ b.links.toList,
      g.node? l.head = some e.head ∧ g.node? l.tail = some e.tail ∧ l.relation = e.relation := by
  rw [mem_of_mapM (of_build built).2]
  simp only [mem_distinct, resolve_eq_ok_iff, node?_of_build built]

end Graph.Builder

end DependencyAtlas
