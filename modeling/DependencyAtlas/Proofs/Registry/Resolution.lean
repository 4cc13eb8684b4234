import DependencyAtlas.Path.Rejection
import DependencyAtlas.Proofs.Filing
import DependencyAtlas.Proofs.RelationSet

set_option autoImplicit false

namespace DependencyAtlas

variable {α β ε σ : Type}

def fault? : Except ε α → Option ε
  | .ok _ => none
  | .error e => some e

theorem fault?_eq_some_iff {x : Except ε α} {e : ε} : fault? x = some e ↔ x = .error e := by
  cases x <;> simp [fault?]

theorem fault?_eq_none_iff {x : Except ε α} : fault? x = none ↔ ∃ a, x = .ok a := by
  cases x <;> simp [fault?]

theorem fault?_bind {x : Except ε α} {f : α → Except ε β} {next : Option ε}
    (after : ∀ a, fault? (f a) = next) : fault? (x >>= f) = (fault? x).or next := by
  cases x with
  | error e => rfl
  | ok a => exact after a

theorem fault?_bind_pure (x : Except ε α) (f : α → β) :
    fault? (x >>= fun a => pure (f a)) = fault? x := by
  cases x <;> rfl

theorem fault?_mapError {β : Type} (x : Except ε α) (f : ε → β) :
    fault? (x.mapError f) = (fault? x).map f := by
  cases x <;> rfl

theorem foldlM_eq_map_foldl_mapM {f : σ → β → σ} {g : α → Except ε β} (xs : List α) (s : σ) :
    xs.foldlM (fun s x => do return f s (← g x)) s = (List.foldl f s ·) <$> xs.mapM g := by
  induction xs generalizing s with
  | nil => rfl
  | cons x xs ih =>
    simp only [List.foldlM_cons, List.mapM_cons, bind_assoc, pure_bind, map_bind, ih]
    refine bind_congr fun b => ?_
    rw [map_eq_pure_bind]
    rfl

namespace NodeKind

theorem toLower_name (kind : NodeKind) : kind.name.toLower = kind.name := by
  cases kind <;> decide +kernel

theorem isNamed_iff {kind : NodeKind} {text : String} :
    kind.isNamed text ↔ kind.name = text.toLower := by
  rw [isNamed, toLower_name, beq_iff_eq]

theorem ofName?_eq_some_iff {kind : NodeKind} {text : String} :
    ofName? text = some kind ↔ kind.isNamed text := by
  have unique : ∀ a ∈ all, ∀ b ∈ all, a.name == text.toLower → b.name == text.toLower → a = b :=
    fun a _ b _ first second =>
      name_injective ((eq_of_beq first).trans (eq_of_beq second).symm)
  rw [ofName?, find?_eq_some_iff_of_unique unique, isNamed_iff, beq_iff_eq]
  exact and_iff_right (mem_all kind)

theorem isSome_ofName? (text : String) :
    (ofName? text).isSome = all.any (·.isNamed text) := by
  rw [Bool.eq_iff_iff, Option.isSome_iff_exists, List.any_eq_true]
  simp only [ofName?_eq_some_iff, mem_all, true_and]

end NodeKind

namespace Registry

variable {reg next : Registry} {names setNames : List String} {found : RelationSet}

-- Each step answers with what it finds, and says what it was to find if there is nothing.
structure LooksUp (reg : Registry) (f : α → Except ModelError β) (look : α → Option β)
    (p : α → Reference) : Prop where
  eq : ∀ x, f x = (look x).elim (.error (p x).unknown) .ok
  known : ∀ x, (p x).known reg = (look x).isSome

namespace LooksUp

variable {f : α → Except ModelError β} {look : α → Option β} {p : α → Reference}

theorem eq_ok_iff (looks : LooksUp reg f look p) {x : α} {y : β} :
    f x = .ok y ↔ look x = some y := by
  rw [looks.eq]
  cases look x <;> simp

theorem fault?_mapM (looks : LooksUp reg f look p) (xs : List α) :
    fault? (xs.mapM f) = reg.firstUnknown? (xs.map p) := by
  have isOk (x : α) : (f x).isOk = (p x).known reg := by
    rw [looks.known, looks.eq]
    cases look x <;> rfl
  refine Option.ext fun e => ?_
  rw [fault?_eq_some_iff, mapM_eq_error_iff_find?, firstUnknown?, List.find?_map, Option.map_map,
    Option.map_eq_some_iff]
  simp only [isOk]
  refine exists_congr fun x => and_congr_right fun first => ?_
  have missing : look x = none := by
    have unknown := List.find?_some first
    rwa [looks.known, Bool.not_eq_true', Option.isSome_eq_false_iff, Option.isNone_iff_eq_none]
      at unknown
  rw [looks.eq, missing, Option.elim_none, Except.error.injEq]
  rfl

end LooksUp

theorem looksUp_require (reg : Registry) : LooksUp reg reg.require reg.relation? .relation where
  eq name := by
    unfold require
    cases reg.relation? name <;> rfl
  known _ := rfl

theorem looksUp_requireSet (reg : Registry) : LooksUp reg reg.requireSet reg.set? .set where
  eq name := by
    unfold requireSet
    cases reg.set? name <;> rfl
  known _ := rfl

theorem firstUnknown?_append (reg : Registry) (first second : List Reference) :
    reg.firstUnknown? (first ++ second) =
      (reg.firstUnknown? first).or (reg.firstUnknown? second) := by
  rw [firstUnknown?, List.find?_append, Option.map_or]
  rfl

theorem firstUnknown?_eq_none_iff {references : List Reference} :
    reg.firstUnknown? references = none ↔ ∀ r ∈ references, r.known reg := by
  simp [firstUnknown?]

theorem resolve_eq (reg : Registry) (names setNames : List String) :
    reg.resolve names setNames = (do
      let relations ← names.mapM reg.require
      let sets ← setNames.mapM reg.requireSet
      return sets.foldl RelationSet.union (.of relations)) := by
  rw [resolve, relationSet, bind_assoc]
  refine bind_congr fun relations => ?_
  rw [pure_bind, foldlM_eq_map_foldl_mapM, map_eq_pure_bind]

theorem fault?_resolve (reg : Registry) (names setNames : List String) :
    fault? (reg.resolve names setNames) = reg.firstUnknown? (Reference.ofNames names setNames) := by
  rw [resolve_eq, Reference.ofNames, firstUnknown?_append, ← (looksUp_require reg).fault?_mapM,
    ← (looksUp_requireSet reg).fault?_mapM]
  exact fault?_bind fun relations => fault?_bind_pure _ _

theorem contains_foldl_union (sets : List RelationSet) (start : RelationSet) (r : Relation) :
    (sets.foldl RelationSet.union start).contains r ↔
      start.contains r ∨ ∃ set ∈ sets, set.contains r := by
  induction sets generalizing start with
  | nil => simp
  | cons set rest ih => simp [ih, or_assoc]

theorem contains_of_resolve (resolved : reg.resolve names setNames = .ok found) (r : Relation) :
    found.contains r ↔ reg.Covers names setNames r := by
  rw [resolve_eq] at resolved
  obtain ⟨relations, named, resolved⟩ := bind_eq_ok_iff.1 resolved
  obtain ⟨sets, setsNamed, resolved⟩ := bind_eq_ok_iff.1 resolved
  cases resolved
  rw [contains_foldl_union, RelationSet.contains_of, List.contains_iff_mem, mem_of_mapM named]
  simp only [mem_of_mapM setsNamed, (looksUp_require reg).eq_ok_iff,
    (looksUp_requireSet reg).eq_ok_iff, Covers]
  grind

theorem resolve_eq_ok_iff :
    reg.resolve names setNames = .ok found ↔
      (∀ r ∈ Reference.ofNames names setNames, r.known reg) ∧
        ∀ r, found.contains r ↔ reg.Covers names setNames r := by
  rw [← firstUnknown?_eq_none_iff, ← fault?_resolve, fault?_eq_none_iff]
  constructor
  · intro resolved
    exact ⟨⟨found, resolved⟩, contains_of_resolve resolved⟩
  · intro determined
    obtain ⟨⟨other, resolved⟩, covers⟩ := determined
    have same : other = found := RelationSet.ext_contains fun r =>
      Bool.eq_iff_iff.2 ((contains_of_resolve resolved r).trans (covers r).symm)
    rw [resolved, same]

theorem resolve_eq_ok_iff_of_same {others otherSets : List String}
    (same : ∀ name, name ∈ names ↔ name ∈ others)
    (sameSets : ∀ name, name ∈ setNames ↔ name ∈ otherSets) :
    reg.resolve names setNames = .ok found ↔ reg.resolve others otherSets = .ok found := by
  simp only [resolve_eq_ok_iff, Covers, Reference.ofNames, List.mem_append, List.mem_map, same,
    sameSets]

structure Extends (next reg : Registry) : Prop where
  relation? : ∀ name r, reg.relation? name = some r → next.relation? name = some r
  set? : ∀ name set, reg.set? name = some set → next.set? name = some set

namespace Extends

theorem require (grown : next.Extends reg) {name : String} {r : Relation}
    (required : reg.require name = .ok r) : next.require name = .ok r := by
  rw [(looksUp_require _).eq_ok_iff] at required ⊢
  exact grown.relation? name r required

theorem requireSet (grown : next.Extends reg) {name : String}
    (required : reg.requireSet name = .ok found) : next.requireSet name = .ok found := by
  rw [(looksUp_requireSet _).eq_ok_iff] at required ⊢
  exact grown.set? name found required

theorem resolve (grown : next.Extends reg) (resolved : reg.resolve names setNames = .ok found) :
    next.resolve names setNames = .ok found := by
  rw [resolve_eq] at resolved ⊢
  obtain ⟨relations, named, resolved⟩ := bind_eq_ok_iff.1 resolved
  obtain ⟨sets, setsNamed, same⟩ := bind_eq_ok_iff.1 resolved
  exact bind_eq_ok_iff.2 ⟨relations, mapM_eq_ok_of_imp (fun _ _ => grown.require) named,
    bind_eq_ok_iff.2 ⟨sets, mapM_eq_ok_of_imp (fun _ _ => grown.requireSet) setsNamed, same⟩⟩

end Extends

end Registry

end DependencyAtlas
