import DependencyAtlas.Proofs.Filing
import DependencyAtlas.Registry

set_option autoImplicit false

namespace DependencyAtlas.Registry

theorem filing : Filing register relation? Relation.forward Relation.reverse where
  taken_iff reg r := by
    unfold register Agrees
    split
    · next known found =>
      rw [found]
      split
      · next same => simp [same]
      · next other => simp [other]
    · next absent => simp [absent]
  look_taken reg r after taken name := by
    unfold register at taken
    split at taken
    · next known found =>
      split at taken
      · cases taken
        by_cases same : r.forward = name
        · rw [← same, found, Option.some_or]
        · rw [if_neg same, Option.or_none]
      · cases taken
    · next absent =>
      cases taken
      rw [relation?, Std.ExtTreeMap.getElem?_insert]
      by_cases same : r.forward = name
      · rw [← same, absent]
        simp
      · simp [same, relation?]

variable {reg after : Registry} {r : Relation} {error : ModelError}

theorem register_eq_error_iff :
    reg.register r = .error error ↔ ∃ known, reg.relation? r.forward = some known ∧
      known.reverse ≠ r.reverse ∧ error = .conflictingRelation r.forward known.reverse := by
  unfold register
  split
  · next known found =>
    rw [found]
    split
    · next same => simp [same]
    · next other => simp [other, eq_comm (b := error)]
  · next absent => simp [absent]

theorem sets_register (registered : reg.register r = .ok after) : after.sets = reg.sets := by
  unfold register at registered
  split at registered
  · split at registered
    · cases registered
      rfl
    · cases registered
  · cases registered
    rfl

theorem sets_foldlM_register {relations : List Relation}
    (registered : relations.foldlM register reg = .ok after) : after.sets = reg.sets :=
  view_foldlM (fun _ _ _ => sets_register) registered

theorem relation?_eq_of_same {relations others : List Relation} {again : Registry}
    (same : ∀ r, r ∈ relations ↔ r ∈ others)
    (registered : relations.foldlM register reg = .ok after)
    (reordered : others.foldlM register reg = .ok again) (name : String) :
    after.relation? name = again.relation? name := by
  refine filing.look_eq_of_same same ?_ registered reordered name
  intro r s forward reverse
  cases r
  cases s
  simp_all

end DependencyAtlas.Registry
