import DependencyAtlas.Command.Invocation
import DependencyAtlas.Proofs.Path.Resolution

set_option autoImplicit false

namespace DependencyAtlas

variable {reg : Registry}

namespace Path.EdgeDraft

structure SameNames (d other : EdgeDraft) : Prop where
  forward : ∀ name, name ∈ d.forward ↔ name ∈ other.forward
  backward : ∀ name, name ∈ d.backward ↔ name ∈ other.backward
  forwardSets : ∀ name, name ∈ d.forwardSets ↔ name ∈ other.forwardSets
  backwardSets : ∀ name, name ∈ d.backwardSets ↔ name ∈ other.backwardSets

variable {d other : EdgeDraft} {rule : EdgeRule}

theorem SameNames.resolve_eq_ok_iff (same : d.SameNames other) :
    d.resolve reg = .ok rule ↔ other.resolve reg = .ok rule := by
  simp only [EdgeDraft.resolve_eq_ok_iff,
    Registry.resolve_eq_ok_iff_of_same same.forward same.forwardSets,
    Registry.resolve_eq_ok_iff_of_same same.backward same.backwardSets]

end Path.EdgeDraft

namespace Command.HierarchyChoice

variable {c other : HierarchyChoice} {rule : EdgeRule}

def draft : HierarchyChoice → Path.EdgeDraft
  | ⟨names, setNames, false⟩ => { forward := names, forwardSets := setNames }
  | ⟨names, setNames, true⟩ => { backward := names, backwardSets := setNames }

structure SameNames (c other : HierarchyChoice) : Prop where
  relations : ∀ name, name ∈ c.relations ↔ name ∈ other.relations
  sets : ∀ name, name ∈ c.sets ↔ name ∈ other.sets
  reverse : c.reverse = other.reverse

namespace SameNames

theorem draft (same : c.SameNames other) : c.draft.SameNames other.draft := by
  obtain ⟨names, setNames, reverse⟩ := c
  obtain ⟨others, otherSets, otherwise⟩ := other
  obtain rfl : reverse = otherwise := same.reverse
  cases reverse with
  | false => exact ⟨same.relations, fun _ => .rfl, same.sets, fun _ => .rfl⟩
  | true => exact ⟨fun _ => .rfl, same.relations, fun _ => .rfl, same.sets⟩

theorem something (same : c.SameNames other) (something : c.relations ≠ [] ∨ c.sets ≠ []) :
    other.relations ≠ [] ∨ other.sets ≠ [] := by
  simpa only [ne_eq, List.eq_nil_iff_forall_not_mem, same.relations, same.sets] using something

end SameNames

theorem rule_eq_resolve_draft (something : c.relations ≠ [] ∨ c.sets ≠ []) (reg : Registry) :
    c.rule reg = (c.draft.resolve reg).mapError .model := by
  obtain ⟨names, setNames, reverse⟩ := c
  have chosen : ¬ (names = [] ∧ setNames = []) := not_and_or.2 something
  unfold rule
  simp only [if_neg chosen]
  cases reverse with
  | false =>
    simp only [draft, Path.EdgeDraft.resolve]
    cases reg.resolve names setNames <;> rfl
  | true =>
    simp only [draft, Path.EdgeDraft.resolve]
    cases reg.resolve names setNames <;> rfl

-- The rule follows what the names cover, in whatever order and however often they are given.
theorem agrees_with_draft (c : HierarchyChoice) (something : c.relations ≠ [] ∨ c.sets ≠ [])
    (reg : Registry) :
    c.rule reg = (c.draft.resolve reg).mapError .model ∧
      (∀ rule, c.rule reg = .ok rule ↔ c.draft.Resolved reg rule) ∧
      (∀ other, c.SameNames other → ∀ rule, c.rule reg = .ok rule ↔ other.rule reg = .ok rule) ∧
      ∀ d other : Path.EdgeDraft, d.SameNames other →
        ∀ rule, d.resolve reg = .ok rule ↔ other.resolve reg = .ok rule := by
  have drafted := rule_eq_resolve_draft something reg
  refine ⟨drafted, fun rule => ?_, fun other same rule => ?_, fun d other same rule => ?_⟩
  · rw [drafted, mapError_eq_ok_iff, Path.EdgeDraft.resolve_eq_ok_iff_resolved]
  · rw [drafted, rule_eq_resolve_draft (same.something something), mapError_eq_ok_iff,
      mapError_eq_ok_iff, same.draft.resolve_eq_ok_iff]
  · exact same.resolve_eq_ok_iff

def users : HierarchyChoice where
  relations := ["call", "extends"]
  sets := ["uses"]
  reverse := true

theorem users_reordered :
    (∃ rule, users.rule .builtin = .ok rule ∧
      (mk ["extends", "call", "extends"] ["uses", "uses"] true).rule .builtin = .ok rule ∧
      rule.followsBackward ⟨"type-use", "used as type by"⟩) ∧
    (mk ["call", "calls"] ["usse"] false).rule .builtin =
      .error (.model (.unknownRelation "calls")) := by
  obtain ⟨drafted, gives, unordered, -⟩ := agrees_with_draft users (.inl (by decide)) .builtin
  obtain ⟨misspelled, -⟩ :=
    agrees_with_draft (mk ["call", "calls"] ["usse"] false) (.inl (by decide)) .builtin
  constructor
  · obtain ⟨rule, resolved⟩ : ∃ rule, users.draft.resolve .builtin = .ok rule := by
      rw [← fault?_eq_none_iff, Path.EdgeDraft.fault?_resolve]
      decide +kernel
    have chosen : users.rule .builtin = .ok rule := by rw [drafted, resolved]; rfl
    refine ⟨rule, chosen, (unordered _ ⟨?_, ?_, rfl⟩ rule).1 chosen, ?_⟩
    · simp [users, or_comm]
    · simp [users]
    · have held : (Registry.builtin.set? "uses").map
          (·.contains ⟨"type-use", "used as type by"⟩) = some true := by decide +kernel
      exact (((gives rule).1 chosen).backward _).2
        (.inr ⟨"uses", by decide, Option.map_eq_some_iff.1 held⟩)
  · rw [misspelled, mapError_eq_error_iff]
    refine ⟨_, fault?_eq_some_iff.1 ?_, rfl⟩
    rw [Path.EdgeDraft.fault?_resolve]
    decide +kernel

end Command.HierarchyChoice

end DependencyAtlas
