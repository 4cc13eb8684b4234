import DependencyAtlas.Proofs.Graph.Builder

set_option autoImplicit false

namespace DependencyAtlas.Graph.Builder

inductive Change where
  | add (node : Node)
  | connect (link : Link)
deriving DecidableEq, Repr

def apply (b : Builder) : Change → Builder
  | .add n => (b.add n).toOption.getD b
  | .connect l => b.connect l

def after (b : Builder) (changes : List Change) : Builder := changes.foldl apply b

-- A node is accepted unless another one of its id was accepted before.
def accept (taken : List Node) : Change → List Node
  | .add n => if ∀ m ∈ taken, m.id = n.id → m = n then taken ++ [n] else taken
  | .connect _ => taken

def accepted (changes : List Change) : List Node := changes.foldl accept []

def connected (changes : List Change) : List Link :=
  changes.filterMap fun
    | .add _ => none
    | .connect l => some l

def acceptedIds (changes : List Change) : List String := (accepted changes).map Node.id

structure Records (g : Graph) (changes : List Change) : Prop where
  nodes : g.nodes = (accepted changes).eraseDups
  links : g.edges.map Edge.link = (connected changes).eraseDups
  ends : ∀ e ∈ g.edges, e.head ∈ accepted changes ∧ e.tail ∈ accepted changes
  node? : ∀ id n, g.node? id = some n ↔ n ∈ accepted changes ∧ n.id = id
  outgoing : ∀ n, g.outgoing n = (g.edges.filter fun e => e.head.id = n.id).reverse
  incoming : ∀ n, g.incoming n = (g.edges.filter fun e => e.tail.id = n.id).reverse
  incident : ∀ n e, (g.incident n).count e =
    (if e ∈ g.edges ∧ e.head.id = n.id then 1 else 0) +
      (if e ∈ g.edges ∧ e.tail.id = n.id then 1 else 0)

variable {b : Builder} {changes : List Change} {g : Graph}

structure Holds (b : Builder) (changes : List Change) : Prop where
  nodes : b.nodes.toList = (accepted changes).eraseDups
  links : b.links.toList = connected changes

theorem accepted_concat (changes : List Change) (c : Change) :
    accepted (changes ++ [c]) = accept (accepted changes) c := by
  simp [accepted]

theorem apply_add {n : Node} {after : Builder} (added : b.add n = .ok after) :
    b.apply (.add n) = after := by
  rw [apply, added]
  rfl

theorem apply_refused {n : Node} {error : ModelError} (refused : b.add n = .error error) :
    b.apply (.add n) = b := by
  rw [apply, refused]
  rfl

namespace Holds

theorem mem_nodes (holds : b.Holds changes) (n : Node) :
    n ∈ b.nodes.toList ↔ n ∈ accepted changes := by
  rw [holds.nodes, List.mem_eraseDups]

theorem isSome_known (holds : b.Holds changes) (id : String) :
    (b.known.find? id).isSome ↔ id ∈ acceptedIds changes := by
  simp only [isSome_find?_known, acceptedIds, List.mem_map, holds.mem_nodes]

theorem add_error_iff (holds : b.Holds changes) (n : Node) (error : ModelError) :
    b.add n = .error error ↔
      (∃ m ∈ accepted changes, m.id = n.id ∧ m ≠ n) ∧ error = .conflictingNode n.id := by
  simp only [add_eq_error_iff, holds.mem_nodes]

theorem next (holds : b.Holds changes) (c : Change) : (b.apply c).Holds (changes ++ [c]) := by
  cases c with
  | add n =>
    have unlinked : connected (changes ++ [.add n]) = connected changes := by
      simp [connected]
    cases added : b.add n with
    | ok after =>
      have agrees : ∀ m ∈ accepted changes, m.id = n.id → m = n := by
        intro m hm same
        by_contra other
        have refused := (holds.add_error_iff n _).2 ⟨⟨m, hm, same, other⟩, rfl⟩
        rw [added] at refused
        cases refused
      rw [apply_add added]
      constructor
      · rw [accepted_concat, accept, if_pos agrees]
        exact nodes_add holds.nodes added
      · rw [unlinked, ← holds.links, links_add added]
    | error e =>
      obtain ⟨⟨m, hm, same, other⟩, -⟩ := (holds.add_error_iff n e).1 added
      have refused : ¬ ∀ m ∈ accepted changes, m.id = n.id → m = n :=
        fun agrees => other (agrees m hm same)
      rw [apply_refused added]
      constructor
      · rw [accepted_concat, accept, if_neg refused]
        exact holds.nodes
      · rw [unlinked]
        exact holds.links
  | connect l =>
    constructor
    · rw [accepted_concat]
      exact holds.nodes
    · have recorded : connected (changes ++ [.connect l]) = connected changes ++ [l] := by
        simp [connected]
      rw [recorded, ← holds.links]
      exact Array.toList_push

theorem build_error_iff (holds : b.Holds changes) (error : ModelError) :
    b.build = .error error ↔ ∃ before l after, connected changes = before ++ l :: after ∧
      (∀ k ∈ before, k.head ∈ acceptedIds changes ∧ k.tail ∈ acceptedIds changes) ∧
        ¬ (l.head ∈ acceptedIds changes ∧ l.tail ∈ acceptedIds changes) ∧
          error = .danglingEdge l.head l.tail l.relation.forward
            (if l.head ∈ acceptedIds changes then l.tail else l.head) := by
  simp only [build_eq_error_iff, resolve_eq_error_iff, holds.links, holds.isSome_known]

theorem exists_build_iff (holds : b.Holds changes) :
    (∃ g, b.build = .ok g) ↔
      ∀ l ∈ connected changes, l.head ∈ acceptedIds changes ∧ l.tail ∈ acceptedIds changes := by
  simp only [Builder.exists_build_iff, holds.links, holds.isSome_known]

theorem records (holds : b.Holds changes) (built : b.build = .ok g) : Records g changes := by
  have nodes : g.nodes = b.nodes.toList := (of_build built).1
  have mem_nodes (n : Node) : n ∈ g.nodes ↔ n ∈ accepted changes := by
    rw [nodes, holds.mem_nodes]
  constructor
  · rw [nodes, holds.nodes]
  · rw [links_of_build built, holds.links]
  · intro e he
    have ends := g.ends_mem e he
    exact ⟨(mem_nodes e.head).1 ends.1, (mem_nodes e.tail).1 ends.2⟩
  · intro id n
    rw [node?_eq_some_iff, mem_nodes]
  · intro n
    rw [outgoing_eq]
    rfl
  · intro n
    rw [incoming_eq]
    rfl
  · intro n e
    have once (p : Edge → Bool) :
        (g.edges.filter p).reverse.count e = if e ∈ g.edges ∧ p e then 1 else 0 := by
      rw [List.count_reverse, (g.edges_nodup.filter p).count]
      simp only [List.mem_filter]
    rw [incident, List.count_append, outgoing_eq, incoming_eq, once, once]
    simp only [beq_iff_eq]

end Holds

theorem holds_after (changes : List Change) : (empty.after changes).Holds changes := by
  induction changes using List.reverseRecOn with
  | nil => exact ⟨rfl, rfl⟩
  | append_singleton changes c ih =>
    have step : empty.after (changes ++ [c]) = (empty.after changes).apply c := by simp [after]
    exact step ▸ ih.next c

theorem after_append (b : Builder) (changes more : List Change) :
    b.after (changes ++ more) = (b.after changes).after more :=
  List.foldl_append

-- A refused node leaves no trace.
theorem decided_by_history (changes : List Change) :
    (∀ n error, (empty.after changes).add n = .error error ↔
      (∃ m ∈ accepted changes, m.id = n.id ∧ m ≠ n) ∧ error = .conflictingNode n.id) ∧
    (∀ n error, (empty.after changes).add n = .error error →
      ∀ more, empty.after (changes ++ .add n :: more) = empty.after (changes ++ more)) ∧
    ((∃ g, (empty.after changes).build = .ok g) ↔
      ∀ l ∈ connected changes, l.head ∈ acceptedIds changes ∧ l.tail ∈ acceptedIds changes) ∧
    (∀ error, (empty.after changes).build = .error error ↔
      ∃ before l after, connected changes = before ++ l :: after ∧
        (∀ k ∈ before, k.head ∈ acceptedIds changes ∧ k.tail ∈ acceptedIds changes) ∧
        ¬ (l.head ∈ acceptedIds changes ∧ l.tail ∈ acceptedIds changes) ∧
        error = .danglingEdge l.head l.tail l.relation.forward
          (if l.head ∈ acceptedIds changes then l.tail else l.head)) ∧
    ∀ g, (empty.after changes).build = .ok g → Records g changes := by
  have holds := holds_after changes
  refine ⟨holds.add_error_iff, ?_, holds.exists_build_iff, holds.build_error_iff,
    fun g built => holds.records built⟩
  intro n error refused more
  have struck : empty.after (changes ++ [.add n]) = empty.after changes := by
    rw [after_append]
    exact apply_refused refused
  calc empty.after (changes ++ .add n :: more)
      = (empty.after (changes ++ [.add n])).after more := by rw [← after_append, List.append_assoc]; rfl
    _ = empty.after (changes ++ more) := by rw [struck, after_append]

def shopChanges : List Change :=
  [.connect ⟨"shop", "till", ⟨"owns", "owned by"⟩⟩, .add ⟨"shop", "Shop", .type⟩,
    .add ⟨"shop", "Store", .type⟩, .add ⟨"till", "Till", .type⟩,
    .connect ⟨"till", "till", ⟨"call", "called by"⟩⟩, .add ⟨"shop", "Shop", .type⟩,
    .connect ⟨"shop", "till", ⟨"owns", "owned by"⟩⟩]

theorem shopChanges_recorded :
    (empty.after shopChanges).add ⟨"till", "Desk", .type⟩ = .error (.conflictingNode "till") ∧
    (∃ g, (empty.after shopChanges).build = .ok g ∧
      g.nodes = [⟨"shop", "Shop", .type⟩, ⟨"till", "Till", .type⟩] ∧
      g.edges.map Edge.link = [⟨"shop", "till", ⟨"owns", "owned by"⟩⟩,
        ⟨"till", "till", ⟨"call", "called by"⟩⟩]) ∧
    (empty.after (shopChanges ++ [.connect ⟨"shop", "bank", ⟨"call", "called by"⟩⟩])).build =
      .error (.danglingEdge "shop" "bank" "call" "bank") := by
  obtain ⟨refuses, -, builds, -, records⟩ := decided_by_history shopChanges
  obtain ⟨-, -, -, fails, -⟩ :=
    decided_by_history (shopChanges ++ [.connect ⟨"shop", "bank", ⟨"call", "called by"⟩⟩])
  refine ⟨(refuses _ _).2 (by decide), ?_, (fails _).2 ⟨connected shopChanges,
    ⟨"shop", "bank", ⟨"call", "called by"⟩⟩, [], by decide, by decide⟩⟩
  obtain ⟨g, built⟩ := builds.2 (by decide)
  have recorded := records g built
  exact ⟨g, built, recorded.nodes.trans (by decide), recorded.links.trans (by decide)⟩

end DependencyAtlas.Graph.Builder
