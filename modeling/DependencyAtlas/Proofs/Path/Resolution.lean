import DependencyAtlas.Proofs.Registry.History
import DependencyAtlas.Proofs.Registry.Resolution
import Mathlib.Data.List.Forall2

set_option autoImplicit false

namespace DependencyAtlas

namespace Registry

variable {reg : Registry}

theorem looksUp_resolveKind (reg : Registry) :
    LooksUp reg Path.resolveKind NodeKind.ofName? .kind where
  eq name := by
    unfold Path.resolveKind
    cases NodeKind.ofName? name <;> rfl
  known name := (NodeKind.isSome_ofName? name).symm

theorem sets_apply {c : Change} (kept : c.keepsSets) : (reg.apply c).sets = reg.sets := by
  cases c with
  | register r =>
    cases registered : reg.register r with
    | ok next => rw [apply_register registered, sets_register registered]
    | error e => rw [apply_refused registered]
  | registerSet name set => cases kept
  | load d =>
    obtain ⟨entries, -, registered⟩ := d.exists_undisputed reg
    exact sets_foldlM_register registered

theorem sets_after {changes : List Change} (kept : ∀ c ∈ changes, c.keepsSets) :
    (reg.after changes).sets = reg.sets := by
  induction changes generalizing reg with
  | nil => rfl
  | cons c rest ih =>
    rw [List.forall_mem_cons] at kept
    exact (ih kept.2).trans (sets_apply kept.1)

theorem extends_after {changes : List Change} (kept : ∀ c ∈ changes, c.keepsSets) :
    (reg.after changes).Extends reg where
  relation? _ _ held := relation?_after held changes
  set? name set held := by
    rw [set?, sets_after kept]
    exact held

end Registry

namespace Path

variable {reg next : Registry}

namespace EdgeDraft

variable {d : EdgeDraft} {rule : EdgeRule}

theorem fault?_resolve (d : EdgeDraft) (reg : Registry) :
    fault? (d.resolve reg) = reg.firstUnknown? d.references := by
  rw [references, Registry.firstUnknown?_append, ← Registry.fault?_resolve,
    ← Registry.fault?_resolve]
  exact fault?_bind fun forward => fault?_bind_pure _ _

theorem resolve_eq_ok_iff :
    d.resolve reg = .ok rule ↔ reg.resolve d.forward d.forwardSets = .ok rule.forward ∧
      reg.resolve d.backward d.backwardSets = .ok rule.backward := by
  simp only [resolve, bind_eq_ok_iff]
  constructor
  · intro resolved
    obtain ⟨forward, first, backward, second, same⟩ := resolved
    cases same
    exact ⟨first, second⟩
  · intro resolved
    exact ⟨_, resolved.1, _, resolved.2, rfl⟩

theorem resolve_eq_ok_iff_resolved : d.resolve reg = .ok rule ↔ d.Resolved reg rule := by
  rw [resolve_eq_ok_iff, Registry.resolve_eq_ok_iff, Registry.resolve_eq_ok_iff]
  constructor
  · intro resolved
    obtain ⟨⟨known, forward⟩, knownBack, backward⟩ := resolved
    exact ⟨List.forall_mem_append.2 ⟨known, knownBack⟩, forward, backward⟩
  · intro resolved
    obtain ⟨known, knownBack⟩ := List.forall_mem_append.1 resolved.known
    exact ⟨⟨known, resolved.forward⟩, knownBack, resolved.backward⟩

end EdgeDraft

namespace TermDraft

variable {d : TermDraft} {index : Nat} {term : Term} {error : DraftError}

theorem fault?_resolve (d : TermDraft) (reg : Registry) (index : Nat) :
    fault? (d.resolve reg index) =
      if d.edges.isSome ↔ d.kinds = none then (reg.firstUnknown? d.references).map .model
      else some (if d.edges.isSome then .ambiguousTerm index else .emptyTerm index) := by
  obtain ⟨edges, kinds, recursive, cumulative⟩ := d
  cases edges with
  | some edges =>
    cases kinds with
    | some names => rfl
    | none =>
      have named : references ⟨some edges, none, recursive, cumulative⟩ = edges.references :=
        List.append_nil _
      rw [if_pos (by simp), named, ← EdgeDraft.fault?_resolve, ← fault?_mapError]
      exact fault?_bind_pure _ _
  | none =>
    cases kinds with
    | none => rfl
    | some names =>
      have named : references ⟨none, some names, recursive, cumulative⟩ = names.map .kind := rfl
      rw [if_pos (by simp), named, ← (Registry.looksUp_resolveKind reg).fault?_mapM,
        ← fault?_mapError]
      exact fault?_bind_pure _ _

theorem resolve_eq_error_iff : d.resolve reg index = .error error ↔ d.Fault reg index error := by
  rw [← fault?_eq_some_iff, fault?_resolve]
  constructor
  · intro failed
    split at failed
    · next one =>
      obtain ⟨cause, first, rfl⟩ := Option.map_eq_some_iff.1 failed
      exact .unknown one first
    · next other =>
      cases failed
      split
      · next edges =>
        exact .ambiguous edges (by simpa [edges, Option.ne_none_iff_isSome] using other)
      · next edges => exact .empty (by simpa using edges) (by simpa [edges] using other)
  · intro fault
    cases fault with
    | ambiguous edges kinds =>
      have other : d.kinds ≠ none := Option.ne_none_iff_isSome.2 kinds
      simp [edges, other]
    | empty edges kinds => simp [edges, kinds]
    | unknown one first => simp [one, first]

theorem exists_resolve_iff (index : Nat) : (∃ term, d.resolve reg index = .ok term) ↔ d.Sound reg := by
  rw [← fault?_eq_none_iff, fault?_resolve]
  constructor
  · intro passed
    split at passed
    · next one =>
      exact ⟨one, Registry.firstUnknown?_eq_none_iff.1 (Option.map_eq_none_iff.1 passed)⟩
    · cases passed
  · intro sound
    rw [if_pos sound.one, Registry.firstUnknown?_eq_none_iff.2 sound.known]
    rfl

-- All that resolving a term can come to.
theorem resolve_eq_ok_iff :
    d.resolve reg index = .ok term ↔
      (∃ x rule, d.edges = some x ∧ d.kinds = none ∧ x.resolve reg = .ok rule ∧
        term = .mk (.edges x.describe rule) d.recursive d.cumulative) ∨
      ∃ names kinds, d.edges = none ∧ d.kinds = some names ∧ names.mapM resolveKind = .ok kinds ∧
        term = .mk (.kinds (.of kinds)) d.recursive d.cumulative := by
  obtain ⟨edges, kinds, recursive, cumulative⟩ := d
  cases edges with
  | some x =>
    cases kinds with
    | some names => simp [resolve]
    | none =>
      simp only [resolve, bind_eq_ok_iff, mapError_eq_ok_iff]
      simp [pure, Except.pure, eq_comm]
  | none =>
    cases kinds with
    | none => simp [resolve]
    | some names =>
      simp only [resolve, bind_eq_ok_iff, mapError_eq_ok_iff]
      simp [pure, Except.pure, eq_comm]

theorem gives_of_resolve (resolved : d.resolve reg index = .ok term) : d.Gives reg term := by
  rcases resolve_eq_ok_iff.1 resolved with
    ⟨x, rule, given, -, named, rfl⟩ | ⟨names, kinds, -, given, named, rfl⟩
  · exact .edges given (EdgeDraft.resolve_eq_ok_iff_resolved.1 named)
  · refine .kinds given fun kind => ?_
    simp [KindFilter.accepts_of, mem_of_mapM named,
      (Registry.looksUp_resolveKind reg).eq_ok_iff, NodeKind.ofName?_eq_some_iff]

theorem resolve_of_extends (grown : next.Extends reg)
    (resolved : d.resolve reg index = .ok term) : d.resolve next index = .ok term := by
  rw [resolve_eq_ok_iff] at resolved ⊢
  refine resolved.imp_left fun edges => ?_
  obtain ⟨x, rule, given, single, named, same⟩ := edges
  obtain ⟨forward, backward⟩ := EdgeDraft.resolve_eq_ok_iff.1 named
  exact ⟨x, rule, given, single,
    EdgeDraft.resolve_eq_ok_iff.2 ⟨grown.resolve forward, grown.resolve backward⟩, same⟩

end TermDraft

namespace Draft

variable {terms : List TermDraft} {found : List Term} {index : Nat} {error : DraftError}

theorem resolveTerms_cons_eq_ok_iff {t : TermDraft} :
    resolveTerms reg index (t :: terms) = .ok found ↔ ∃ term rest,
      t.resolve reg index = .ok term ∧ resolveTerms reg (index + 1) terms = .ok rest ∧
        term :: rest = found := by
  simp only [resolveTerms, bind_eq_ok_iff, pure, Except.pure, Except.ok.injEq]
  grind

theorem exists_resolveTerms_iff (index : Nat) :
    (∃ found, resolveTerms reg index terms = .ok found) ↔ ∀ t ∈ terms, t.Sound reg := by
  induction terms generalizing index with
  | nil => exact ⟨fun _ => by simp, fun _ => ⟨[], rfl⟩⟩
  | cons t rest ih =>
    rw [List.forall_mem_cons, ← ih (index + 1), ← TermDraft.exists_resolve_iff index]
    simp only [resolveTerms_cons_eq_ok_iff]
    constructor
    · intro resolved
      obtain ⟨_, term, others, first, later, -⟩ := resolved
      exact ⟨⟨term, first⟩, others, later⟩
    · intro each
      obtain ⟨⟨term, first⟩, others, later⟩ := each
      exact ⟨_, term, others, first, later, rfl⟩

-- The place of a term in the list is counted from where the list starts.
theorem resolveTerms_eq_error_iff :
    resolveTerms reg index terms = .error error ↔ ∃ before t after,
      terms = before ++ t :: after ∧ (∀ s ∈ before, s.Sound reg) ∧
        t.Fault reg (index + before.length) error := by
  induction terms generalizing index with
  | nil => simp [resolveTerms]
  | cons t rest ih =>
    have later (term : Term) :
        (resolveTerms reg (index + 1) rest >>= fun terms => pure (term :: terms)) = .error error ↔
          resolveTerms reg (index + 1) rest = .error error := by
      rw [← fault?_eq_some_iff, fault?_bind_pure, fault?_eq_some_iff]
    have place (before : List TermDraft) :
        index + (t :: before).length = index + 1 + before.length := by
      rw [List.length_cons, Nat.add_right_comm, Nat.add_assoc]
    rw [resolveTerms, bind_eq_error_iff, exists_split_cons_iff, TermDraft.resolve_eq_error_iff]
    simp only [later, exists_and_right, TermDraft.exists_resolve_iff, ih, List.forall_mem_cons, place]
    constructor
    · intro failed
      rcases failed with here | ⟨sound, before, s, split, others, fault⟩
      · exact .inl ⟨by simp, here⟩
      · exact .inr ⟨before, s, split, ⟨sound, others⟩, fault⟩
    · intro failed
      rcases failed with ⟨-, here⟩ | ⟨before, s, split, ⟨sound, others⟩, fault⟩
      · exact .inl here
      · exact .inr ⟨sound, before, s, split, others, fault⟩

theorem gives_of_resolveTerms (resolved : resolveTerms reg index terms = .ok found) :
    List.Forall₂ (TermDraft.Gives reg) terms found := by
  induction terms generalizing index found with
  | nil =>
    cases resolved
    exact .nil
  | cons t rest ih =>
    obtain ⟨term, others, first, later, rfl⟩ := resolveTerms_cons_eq_ok_iff.1 resolved
    exact .cons (TermDraft.gives_of_resolve first) (ih later)

theorem resolveTerms_of_extends (grown : next.Extends reg)
    (resolved : resolveTerms reg index terms = .ok found) :
    resolveTerms next index terms = .ok found := by
  induction terms generalizing index found with
  | nil => exact resolved
  | cons t rest ih =>
    obtain ⟨term, others, first, later, same⟩ := resolveTerms_cons_eq_ok_iff.1 resolved
    exact resolveTerms_cons_eq_ok_iff.2
      ⟨term, others, TermDraft.resolve_of_extends grown first, ih later, same⟩

theorem resolve_eq_ok_iff {d : Draft} {e : Expression} :
    d.resolve reg = .ok e ↔ ∃ terms, resolveTerms reg 0 d.terms = .ok terms ∧
      .mk d.name terms = e := by
  simp only [resolve, bind_eq_ok_iff, pure, Except.pure, Except.ok.injEq]

theorem fault?_resolve (d : Draft) (reg : Registry) :
    fault? (d.resolve reg) = fault? (resolveTerms reg 0 d.terms) :=
  fault?_bind_pure _ _

theorem resolved_or_rejected (d : Draft) (reg : Registry) :
    ((∃ e, d.resolve reg = .ok e) ↔ ∀ t ∈ d.terms, t.Sound reg) ∧
      (∀ error, d.resolve reg = .error error ↔ d.Rejected reg error) ∧
      ∀ e, d.resolve reg = .ok e →
        (e.name = d.name ∧ List.Forall₂ (TermDraft.Gives reg) d.terms e.terms) ∧
          ∀ changes : List Registry.Change, (∀ c ∈ changes, c.keepsSets) →
            d.resolve (reg.after changes) = .ok e := by
  refine ⟨?_, fun error => ?_, fun e resolved => ?_⟩
  · rw [← exists_resolveTerms_iff 0, ← fault?_eq_none_iff, ← fault?_eq_none_iff,
      fault?_resolve]
  · rw [← fault?_eq_some_iff, fault?_resolve, fault?_eq_some_iff, resolveTerms_eq_error_iff]
    simp only [Rejected, Nat.zero_add]
  · obtain ⟨terms, named, rfl⟩ := resolve_eq_ok_iff.1 resolved
    refine ⟨⟨rfl, gives_of_resolveTerms named⟩, fun changes kept => ?_⟩
    exact resolve_eq_ok_iff.2
      ⟨terms, resolveTerms_of_extends (Registry.extends_after kept) named, rfl⟩

def users : Draft where
  name := some "users"
  terms :=
    [{ edges := some { backward := ["extends"], backwardSets := ["uses", "none"] }
       recursive := true },
     { kinds := some ["Method", "UNKNOWN"], cumulative := true }]

def carelessUsers : Draft where
  terms := users.terms ++ [{ edges := some { forward := ["call"], forwardSets := ["usse"] } }, {}]

theorem users_resolved_carelessUsers_rejected :
    (∃ e, users.resolve .builtin = .ok e ∧
      List.Forall₂ (TermDraft.Gives .builtin) users.terms e.terms ∧
      users.resolve (Registry.builtin.after [.register ⟨"owns", "owned by"⟩]) = .ok e) ∧
    carelessUsers.resolve .builtin = .error (.model (.unknownRelationSet "usse")) := by
  have named (name : String) (kind : NodeKind) (same : kind.name = name.toLower) :
      (Reference.kind name).known .builtin :=
    List.any_eq_true.2 ⟨kind, NodeKind.mem_all kind, NodeKind.isNamed_iff.2 same⟩
  have sound : ∀ t ∈ users.terms, t.Sound .builtin := by
    simp only [users, List.forall_mem_cons]
    refine ⟨⟨by decide, by decide +kernel⟩, ⟨by decide, ?_⟩, by simp⟩
    simpa [TermDraft.references] using
      ⟨named "Method" .method (by decide +kernel), named "UNKNOWN" .unknown (by decide +kernel)⟩
  obtain ⟨resolves, -, gives⟩ := resolved_or_rejected users .builtin
  obtain ⟨-, rejects, -⟩ := resolved_or_rejected carelessUsers .builtin
  constructor
  · obtain ⟨e, resolved⟩ := resolves.2 sound
    obtain ⟨⟨-, each⟩, later⟩ := gives e resolved
    exact ⟨e, resolved, each, later [.register ⟨"owns", "owned by"⟩] (by decide)⟩
  · exact (rejects _).2 ⟨users.terms, _, _, rfl, sound, .unknown (by decide) (by decide +kernel)⟩

end Draft

end Path

end DependencyAtlas
