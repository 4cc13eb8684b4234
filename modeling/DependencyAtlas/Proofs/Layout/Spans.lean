import DependencyAtlas.Proofs.Layout.Comparison

set_option autoImplicit false

namespace DependencyAtlas

open Layout (Slot)

namespace Traversal

-- A tree of a forest, with the node right above it and the level and the offset at which it starts.
structure Span where
  above : Option Node
  node : Node
  below : Forest
  level : Nat
  first : Nat

namespace Forest

-- In the order of assignment, as the slots.
def spans (above : Option Node) (level next : Nat) : Forest → List Span
  | nil => []
  | cons n below beside =>
    below.spans (some n) (level + 1) next ++
      ⟨above, n, below, level, next⟩ :: beside.spans above level (next + max 1 below.leaves)

@[simp] theorem spans_nil (above : Option Node) (level next : Nat) :
    nil.spans above level next = [] := rfl

theorem spans_cons (above : Option Node) (level next : Nat) (n : Node) (below beside : Forest) :
    (cons n below beside).spans above level next = below.spans (some n) (level + 1) next ++
      ⟨above, n, below, level, next⟩ :: beside.spans above level (next + max 1 below.leaves) := rfl

theorem spans_append (first second : Forest) (above : Option Node) (level next : Nat) :
    (first.append second).spans above level next =
      first.spans above level next ++ second.spans above level (next + first.leaves) := by
  induction first generalizing next with
  | nil => simp
  | cons n below beside _ ih =>
    rw [cons_append, spans_cons, ih, spans_cons, leaves_cons, List.append_assoc, List.cons_append,
      Nat.add_assoc]

end Forest

namespace Span

def width (x : Span) : Nat := max 1 x.below.leaves

def slot (x : Span) : Slot := ⟨x.node, x.level, x.first + (x.width - 1) / 2⟩

def inner (x : Span) : List Span := x.below.spans (some x.node) (x.level + 1) x.first

def inside (x : Span) : List Span := x.inner ++ [x]

theorem mem_inside {x y : Span} : y ∈ x.inside ↔ y ∈ x.inner ∨ y = x := by
  rw [inside, List.mem_append, List.mem_singleton]

theorem width_pos (x : Span) : 0 < x.width := Nat.le_max_left ..

end Span

namespace Forest

variable {forest : Forest} {above : Option Node} {level next : Nat} {x y : Span}

theorem mem_spans_cons {n : Node} {below beside : Forest} :
    x ∈ (cons n below beside).spans above level next ↔
      x ∈ below.spans (some n) (level + 1) next ∨ x = ⟨above, n, below, level, next⟩ ∨
        x ∈ beside.spans above level (next + max 1 below.leaves) := by
  rw [spans_cons, List.mem_append, List.mem_cons]

theorem root_mem_spans (above : Option Node) (level next : Nat) (n : Node) (below beside : Forest) :
    ⟨above, n, below, level, next⟩ ∈ (cons n below beside).spans above level next :=
  mem_spans_cons.2 (.inr (.inl rfl))

theorem below_subset_spans (above : Option Node) (level next : Nat) (n : Node)
    (below beside : Forest) :
    below.spans (some n) (level + 1) next ⊆ (cons n below beside).spans above level next :=
  fun _ inner => mem_spans_cons.2 (.inl inner)

theorem beside_subset_spans (above : Option Node) (level next : Nat) (n : Node)
    (below beside : Forest) :
    beside.spans above level (next + max 1 below.leaves) ⊆
      (cons n below beside).spans above level next :=
  fun _ others => mem_spans_cons.2 (.inr (.inr others))

theorem slot_spans (forest : Forest) (above : Option Node) (level next : Nat) :
    (forest.spans above level next).map Span.slot = forest.slots level next := by
  induction forest generalizing above level next with
  | nil => rfl
  | cons n below beside ihBelow ihBeside =>
    rw [spans_cons, List.map_append, List.map_cons, ihBelow, ihBeside, slots_cons]
    rfl

theorem node_spans (forest : Forest) (above : Option Node) (level next : Nat) :
    (forest.spans above level next).map (·.node) = forest.nodes := by
  rw [← forest.nodes_slots level next, ← forest.slot_spans above level next, List.map_map]
  rfl

theorem spans_within (forest : Forest) (above : Option Node) (level next : Nat) :
    ∀ x ∈ forest.spans above level next,
      next ≤ x.first ∧ x.first + x.width ≤ next + forest.leaves := by
  induction forest generalizing above level next with
  | nil => simp
  | cons n below beside ihBelow ihBeside =>
    intro x hx
    rw [leaves_cons]
    rcases mem_spans_cons.1 hx with inner | rfl | others
    · have := ihBelow (some n) (level + 1) next x inner
      omega
    · dsimp only [Span.width]
      omega
    · have := ihBeside above level _ x others
      omega

theorem inside_subset (forest : Forest) (above : Option Node) (level next : Nat) :
    ∀ x ∈ forest.spans above level next, x.inside ⊆ forest.spans above level next := by
  induction forest generalizing above level next with
  | nil => simp
  | cons n below beside ihBelow ihBeside =>
    intro x hx y hy
    rcases mem_spans_cons.1 hx with inner | rfl | others
    · exact below_subset_spans _ _ _ _ _ _ (ihBelow (some n) (level + 1) next x inner hy)
    · rcases Span.mem_inside.1 hy with inner | rfl
      · exact below_subset_spans _ _ _ _ _ _ inner
      · exact root_mem_spans ..
    · exact beside_subset_spans _ _ _ _ _ _ (ihBeside above level _ x others hy)

-- Every tree stands where the forest does, or right below another one.
theorem exists_parent (forest : Forest) (above : Option Node) (level next : Nat) :
    ∀ y ∈ forest.spans above level next,
      y.above = above ∨
        ∃ x ∈ forest.spans above level next, y.above = some x.node ∧ y ∈ x.inner := by
  induction forest generalizing above level next with
  | nil => simp
  | cons n below beside ihBelow ihBeside =>
    intro y hy
    rcases mem_spans_cons.1 hy with inner | rfl | others
    · right
      rcases ihBelow (some n) (level + 1) next y inner with here | ⟨x, hx, parent⟩
      · exact ⟨_, root_mem_spans above level next n below beside, here, inner⟩
      · exact ⟨x, below_subset_spans _ _ _ _ _ _ hx, parent⟩
    · exact .inl rfl
    · rcases ihBeside above level _ y others with here | ⟨x, hx, parent⟩
      · exact .inl here
      · exact .inr ⟨x, beside_subset_spans _ _ _ _ _ _ hx, parent⟩

-- Of two trees, the first one is inside the other or ends before it.
theorem spans_ordered (forest : Forest) (above : Option Node) (level next : Nat) :
    (forest.spans above level next).Pairwise fun x y => x ∈ y.inside ∨ x.first + x.width ≤ y.first := by
  induction forest generalizing above level next with
  | nil => simp
  | cons n below beside ihBelow ihBeside =>
    rw [spans_cons, List.pairwise_append, List.pairwise_cons]
    refine ⟨ihBelow (some n) (level + 1) next, ⟨?_, ihBeside above level _⟩, ?_⟩
    · intro y hy
      exact .inr (beside.spans_within above level _ y hy).1
    · intro x hx y hy
      rcases List.mem_cons.1 hy with rfl | others
      · exact .inl (Span.mem_inside.2 (.inl hx))
      · have ends := (below.spans_within (some n) (level + 1) next x hx).2
        have starts := (beside.spans_within above level _ y others).1
        right
        omega

theorem first_tips (forest : Forest) (above : Option Node) (level next : Nat) :
    ((forest.spans above level next).filter (·.below.isEmpty)).map (·.first) =
      List.range' next forest.leaves := by
  induction forest generalizing above level next with
  | nil => rfl
  | cons n below beside ihBelow ihBeside =>
    rw [spans_cons, List.filter_append, List.map_append, ihBelow, leaves_cons]
    cases below with
    | nil =>
      have width : max 1 nil.leaves = 1 := rfl
      rw [List.filter_cons_of_pos rfl, List.map_cons, ihBeside, width, Nat.add_comm 1,
        List.range'_succ]
      rfl
    | cons m inner others =>
      have some := leaves_cons_pos m inner others
      have width : max 1 (cons m inner others).leaves = (cons m inner others).leaves := by omega
      rw [List.filter_cons_of_neg (by simp [isEmpty]), ihBeside, width, List.range'_append_1]

theorem spans_apart (hx : x ∈ forest.spans above level next) (hy : y ∈ forest.spans above level next)
    (notIn : x ∉ y.inside) (notAround : y ∉ x.inside) :
    x.first + x.width ≤ y.first ∨ y.first + y.width ≤ x.first := by
  let related (x y : Span) : Prop := x ∈ y.inside ∨ y ∈ x.inside ∨
    x.first + x.width ≤ y.first ∨ y.first + y.width ≤ x.first
  have symmetric : ∀ x y, related x y → related y x := by
    intro x y either
    rcases either with inside | around | before | after
    · exact .inr (.inl inside)
    · exact .inl around
    · exact .inr (.inr (.inr before))
    · exact .inr (.inr (.inl after))
  have ordered : (forest.spans above level next).Pairwise related := by
    refine (forest.spans_ordered above level next).imp fun {x y} either => ?_
    rcases either with inside | before
    · exact .inl inside
    · exact .inr (.inr (.inl before))
  have self : ∀ x ∈ forest.spans above level next, related x x :=
    fun x _ => .inl (Span.mem_inside.2 (.inr rfl))
  have flipped : (forest.spans above level next).Pairwise (flip related) :=
    ordered.imp fun {x y} either => symmetric x y either
  rcases ordered.forall_of_forall_of_flip self flipped hx hy with inside | around | apart
  · exact absurd inside notIn
  · exact absurd around notAround
  · exact apart

theorem inside_eq (x : Span) : x.inside = (cons x.node x.below nil).spans x.above x.level x.first :=
  rfl

theorem tips_inside (x : Span) :
    {first | ∃ y ∈ x.inside, y.below.isEmpty ∧ y.first = first} =
      Set.Icc x.first (x.first + x.width - 1) := by
  ext first
  have tips := first_tips (cons x.node x.below nil) x.above x.level x.first
  have listed : first ∈ (x.inside.filter (·.below.isEmpty)).map (·.first) ↔
      first ∈ List.range' x.first (x.width + 0) := by
    rw [inside_eq, tips]
    rfl
  have pos := x.width_pos
  rw [Set.mem_ofPred_eq, Set.mem_Icc]
  simp only [List.mem_map, List.mem_filter, List.mem_range'_1, and_assoc] at listed
  rw [listed]
  omega

def Stands (forest : Forest) (level next : Nat) (a c : Node) : Prop :=
  ∃ y ∈ forest.spans none level next, y.above = some a ∧ y.node = c

-- From the node that a part of the forest stands below, step by step to each of its trees.
theorem stands_of_spans {a : Node} {part : Forest} {deeper further : Nat}
    (within : part.spans (some a) deeper further ⊆ forest.spans none level next) :
    ∀ y ∈ part.spans (some a) deeper further,
      Relation.ReflTransGen (forest.Stands level next) a y.node := by
  induction part generalizing a deeper further with
  | nil => simp
  | cons n below beside ihBelow ihBeside =>
    intro y hy
    have root : forest.Stands level next a n := ⟨_, within (root_mem_spans ..), rfl, rfl⟩
    rcases mem_spans_cons.1 hy with inner | rfl | others
    · exact .head root (ihBelow (List.Subset.trans (below_subset_spans ..) within) y inner)
    · exact .single root
    · exact ihBeside (List.Subset.trans (beside_subset_spans ..) within) y others

section

variable (distinct : forest.nodes.Nodup)

include distinct

theorem span_unique (hx : x ∈ forest.spans above level next) (hy : y ∈ forest.spans above level next)
    (same : x.node = y.node) : x = y := by
  rw [← forest.node_spans above level next] at distinct
  exact List.inj_on_of_nodup_map distinct hx hy same

theorem mem_inner_of_above (hx : x ∈ forest.spans none level next)
    (hy : y ∈ forest.spans none level next) (child : y.above = some x.node) : y ∈ x.inner := by
  rcases forest.exists_parent none level next y hy with top | ⟨z, hz, parent, inner⟩
  · rw [top] at child
    cases child
  · rw [child] at parent
    rw [span_unique distinct hx hz (Option.some.inj parent)]
    exact inner

theorem isEmpty_below_iff (hx : x ∈ forest.spans none level next) :
    x.below.isEmpty ↔ ∀ c, ¬ forest.Stands level next x.node c := by
  constructor
  · intro empty c stands
    obtain ⟨y, hy, child, -⟩ := stands
    have inner := mem_inner_of_above distinct hx hy child
    cases below : x.below with
    | nil => simp [Span.inner, below] at inner
    | cons m inner others => simp [below, isEmpty] at empty
  · intro none
    cases below : x.below with
    | nil => rfl
    | cons m inner others =>
      have top : ⟨some x.node, m, inner, x.level + 1, x.first⟩ ∈ x.inner := by
        rw [Span.inner, below]
        exact root_mem_spans ..
      have listed := forest.inside_subset _ level next x hx (Span.mem_inside.2 (.inl top))
      exact absurd ⟨_, listed, rfl, rfl⟩ (none m)

theorem stands_iff_inside (hx : x ∈ forest.spans none level next) (n : Node) :
    Relation.ReflTransGen (forest.Stands level next) x.node n ↔ ∃ y ∈ x.inside, y.node = n := by
  constructor
  · intro stands
    induction stands with
    | refl => exact ⟨x, Span.mem_inside.2 (.inr rfl), rfl⟩
    | @tail m n _ step ih =>
      obtain ⟨y, hy, rfl⟩ := ih
      obtain ⟨z, hz, child, rfl⟩ := step
      have listed := forest.inside_subset _ level next x hx hy
      have inner := mem_inner_of_above distinct listed hz child
      rw [inside_eq] at hy ⊢
      exact ⟨z, inside_subset _ _ _ _ y hy (Span.mem_inside.2 (.inl inner)), rfl⟩
  · intro inside
    obtain ⟨y, hy, rfl⟩ := inside
    rcases Span.mem_inside.1 hy with inner | rfl
    · refine stands_of_spans (fun z hz => ?_) y inner
      exact forest.inside_subset _ level next x hx (Span.mem_inside.2 (.inl hz))
    · exact .refl

end

end Forest

end Traversal

end DependencyAtlas
