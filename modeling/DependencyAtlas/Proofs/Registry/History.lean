import DependencyAtlas.Proofs.Document.Rejection

set_option autoImplicit false

namespace DependencyAtlas.Registry

inductive Change where
  | register (relation : Relation)
  | registerSet (name : String) (set : RelationSet)
  | load (document : Document.GraphDocument)

def apply (reg : Registry) : Change → Registry
  | .register r => (reg.register r).toOption.getD reg
  | .registerSet name set => reg.registerSet name set
  | .load d => (d.load reg).registry

def after (reg : Registry) (changes : List Change) : Registry := changes.foldl apply reg

-- Only registering a set can put another in the place of one that is there.
def Change.keepsSets : Change → Bool
  | .registerSet _ _ => false
  | .register _ | .load _ => true

def Filed (reg : Registry) : Prop := ∀ name r, reg.relation? name = some r → r.forward = name

variable {reg next : Registry} {r : Relation} {error : ModelError}

theorem apply_register (registered : reg.register r = .ok next) :
    reg.apply (.register r) = next := by
  rw [apply, registered]
  rfl

theorem apply_refused (refused : reg.register r = .error error) : reg.apply (.register r) = reg := by
  rw [apply, refused]
  rfl

theorem exists_filed (reg : Registry) (c : Change) :
    ∃ relations : List Relation, ∀ name, (reg.apply c).relation? name =
      (reg.relation? name).or (relations.find? fun r => r.forward == name) := by
  cases c with
  | register r =>
    cases registered : reg.register r with
    | ok next =>
      refine ⟨[r], fun name => ?_⟩
      rw [apply_register registered, filing.look_taken reg r next registered]
      by_cases same : r.forward = name <;> simp [same]
    | error e =>
      refine ⟨[], fun name => ?_⟩
      rw [apply_refused registered, List.find?_nil, Option.or_none]
  | registerSet name set =>
    refine ⟨[], fun name => ?_⟩
    rw [List.find?_nil, Option.or_none]
    rfl
  | load d =>
    obtain ⟨entries, -, registered⟩ := d.exists_undisputed reg
    exact ⟨_, filing.look_foldlM registered⟩

theorem Filed.apply (filed : reg.Filed) (c : Change) : (reg.apply c).Filed := by
  obtain ⟨relations, found⟩ := exists_filed reg c
  intro name r held
  rw [found, Option.or_eq_some_iff] at held
  rcases held with old | ⟨-, new⟩
  · exact filed name r old
  · exact eq_of_beq (List.find?_some new :)

theorem relation?_apply {name : String} (held : reg.relation? name = some r) (c : Change) :
    (reg.apply c).relation? name = some r := by
  obtain ⟨relations, found⟩ := exists_filed reg c
  rw [found, held, Option.some_or]

theorem Filed.after (filed : reg.Filed) (changes : List Change) : (reg.after changes).Filed := by
  induction changes generalizing reg with
  | nil => exact filed
  | cons c rest ih => exact ih (filed.apply c)

theorem relation?_after {name : String} (held : reg.relation? name = some r)
    (changes : List Change) : (reg.after changes).relation? name = some r := by
  induction changes generalizing reg with
  | nil => exact held
  | cons c rest ih => exact ih (relation?_apply held c)

theorem filed_empty : empty.Filed := by
  intro name r held
  simp [relation?, empty] at held

theorem filed_builtin : builtin.Filed := by
  intro name r held
  have apart : (builtinRelations.map fun r => (r.forward, r)).Pairwise
      fun a b => ¬ compare a.1 b.1 = .eq := by decide +kernel
  by_cases known : ∃ s ∈ builtinRelations, s.forward = name
  · obtain ⟨s, hs, rfl⟩ := known
    have found : builtin.relation? s.forward = some s :=
      Std.ExtTreeMap.getElem?_ofList_of_mem Std.ReflCmp.compare_self apart
        (List.mem_map.2 ⟨s, hs, rfl⟩)
    cases found.symm.trans held
    rfl
  · have absent : builtin.relation? name = none := by
      refine Std.ExtTreeMap.getElem?_ofList_of_contains_eq_false (Bool.eq_false_iff.2 fun listed => ?_)
      obtain ⟨pair, member, named⟩ := List.mem_map.1 (List.contains_iff_mem.1 listed)
      obtain ⟨s, hs, rfl⟩ := List.mem_map.1 member
      exact known ⟨s, hs, named⟩
    cases absent.symm.trans held

theorem require_eq_ok_iff {name : String} :
    reg.require name = .ok r ↔ reg.relation? name = some r := by
  unfold require
  cases reg.relation? name <;> simp

theorem eq_of_relation? {other : Registry}
    (relations : ∀ name, reg.relation? name = other.relation? name)
    (sets : reg.sets = other.sets) : reg = other := by
  have same : reg.relations = other.relations := Std.ExtTreeMap.ext_getElem? relations
  cases reg
  cases other
  simp_all

theorem foldlM_register_of_same {relations others : List Relation}
    (same : ∀ r, r ∈ relations ↔ r ∈ others) (registered : relations.foldlM register reg = .ok next) :
    others.foldlM register reg = .ok next := by
  have each := filing.foldlM_iff.1 ⟨next, registered⟩
  simp only [same] at each
  obtain ⟨again, filed⟩ := filing.foldlM_iff.2 each
  have found := relation?_eq_of_same same registered filed
  have sets : next.sets = again.sets :=
    (sets_foldlM_register registered).trans (sets_foldlM_register filed).symm
  rw [filed, eq_of_relation? found sets]

theorem after_append (reg : Registry) (changes more : List Change) :
    reg.after (changes ++ more) = (reg.after changes).after more :=
  List.foldl_append

-- A name keeps its relation for ever, and a refused relation leaves no trace.
theorem append_only (start : Registry) (begun : start = .empty ∨ start = .builtin)
    (changes : List Change) :
    (start.after changes).Filed ∧
    (∀ name r, (start.after changes).require name = .ok r →
      ∀ more, (start.after (changes ++ more)).require name = .ok r) ∧
    (∀ r, (∃ error, (start.after changes).register r = .error error) ↔
      ∃ known, (start.after changes).relation? r.forward = some known ∧ known.reverse ≠ r.reverse) ∧
    (∀ r error, (start.after changes).register r = .error error →
      ∀ more, start.after (changes ++ .register r :: more) = start.after (changes ++ more)) ∧
    ∀ relations others : List Relation, (∀ r, r ∈ relations ↔ r ∈ others) →
      ∀ result, relations.foldlM register (start.after changes) = .ok result ↔
        others.foldlM register (start.after changes) = .ok result := by
  have filed : start.Filed := by
    rcases begun with rfl | rfl
    · exact filed_empty
    · exact filed_builtin
  refine ⟨filed.after changes, ?_, ?_, ?_, ?_⟩
  · intro name r held more
    rw [require_eq_ok_iff] at held ⊢
    rw [after_append]
    exact relation?_after held more
  · intro r
    simp only [register_eq_error_iff]
    constructor
    · intro refused
      obtain ⟨_, known, found, other, -⟩ := refused
      exact ⟨known, found, other⟩
    · intro conflict
      obtain ⟨known, found, other⟩ := conflict
      exact ⟨_, known, found, other, rfl⟩
  · intro r error refused more
    have struck : (start.after changes).apply (.register r) = start.after changes :=
      apply_refused refused
    calc start.after (changes ++ .register r :: more)
        = ((start.after changes).apply (.register r)).after more := after_append start changes _
      _ = start.after (changes ++ more) := by rw [struck, after_append]
  · intro relations others same result
    exact ⟨foldlM_register_of_same same, foldlM_register_of_same fun r => (same r).symm⟩

def mixedChanges : List Change :=
  [.load Document.GraphDocument.muddle, .register ⟨"owns", "belongs to"⟩, .registerSet "ways" .all]

theorem mixedChanges_kept :
    (builtin.after mixedChanges).Filed ∧
    (∀ more, (builtin.after (mixedChanges ++ more)).require "owns" = .ok ⟨"owns", "owned by"⟩) ∧
    (∃ error, (builtin.after mixedChanges).register ⟨"owns", "belongs to"⟩ = .error error) ∧
    ∃ result,
      [⟨"lets", "let by"⟩, ⟨"owns", "owned by"⟩].foldlM register (builtin.after mixedChanges)
        = .ok result ∧
      [⟨"owns", "owned by"⟩, ⟨"lets", "let by"⟩, ⟨"owns", "owned by"⟩].foldlM register
        (builtin.after mixedChanges) = .ok result := by
  obtain ⟨filed, kept, refused, -, order⟩ := append_only .builtin (.inr rfl) mixedChanges
  have owns : (builtin.after mixedChanges).relation? "owns" = some ⟨"owns", "owned by"⟩ := by
    decide +kernel
  have lets : (builtin.after mixedChanges).relation? "lets" = none := by decide +kernel
  refine ⟨filed, ?_, ?_, ?_⟩
  · exact kept "owns" _ (require_eq_ok_iff.2 owns)
  · exact (refused _).2 ⟨_, owns, by decide⟩
  · have registers : ∃ result, [⟨"lets", "let by"⟩, ⟨"owns", "owned by"⟩].foldlM register
        (builtin.after mixedChanges) = .ok result :=
      filing.foldlM_iff.2 (by simp [Agrees, owns, lets])
    obtain ⟨result, registered⟩ := registers
    exact ⟨result, registered, (order _ _ (by simp [or_comm]) result).1 registered⟩

end DependencyAtlas.Registry
