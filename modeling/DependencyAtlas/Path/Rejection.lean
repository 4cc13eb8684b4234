import DependencyAtlas.Path.Draft

set_option autoImplicit false

namespace DependencyAtlas

def NodeKind.isNamed (kind : NodeKind) (text : String) : Bool := kind.name.toLower == text.toLower

inductive Reference where
  | relation (name : String)
  | set (name : String)
  | kind (name : String)
deriving DecidableEq, Repr

namespace Reference

def known (reg : Registry) : Reference → Bool
  | relation name => (reg.relation? name).isSome
  | set name => (reg.set? name).isSome
  | kind name => NodeKind.all.any (·.isNamed name)

def unknown : Reference → ModelError
  | relation name => .unknownRelation name
  | set name => .unknownRelationSet name
  | kind name => .unknownNodeKind name

-- The relations are looked up before the sets.
def ofNames (names setNames : List String) : List Reference :=
  names.map relation ++ setNames.map set

end Reference

namespace Registry

def firstUnknown? (reg : Registry) (references : List Reference) : Option ModelError :=
  (references.find? fun r => !r.known reg).map Reference.unknown

-- Whether the relation goes by one of the names, or is in a set that does.
def Covers (reg : Registry) (names setNames : List String) (r : Relation) : Prop :=
  (∃ name ∈ names, reg.relation? name = some r) ∨
    ∃ name ∈ setNames, ∃ set, reg.set? name = some set ∧ set.contains r

end Registry

namespace Path

def EdgeDraft.references (d : EdgeDraft) : List Reference :=
  Reference.ofNames d.forward d.forwardSets ++ Reference.ofNames d.backward d.backwardSets

def TermDraft.references (d : TermDraft) : List Reference :=
  d.edges.elim [] EdgeDraft.references ++ d.kinds.elim [] (·.map .kind)

structure TermDraft.Sound (d : TermDraft) (reg : Registry) : Prop where
  one : d.edges.isSome ↔ d.kinds = none
  known : ∀ r ∈ d.references, r.known reg

-- Why a term at this place in the list of terms is not sound.
inductive TermDraft.Fault (d : TermDraft) (reg : Registry) (index : Nat) : DraftError → Prop where
  | ambiguous (edges : d.edges.isSome) (kinds : d.kinds.isSome) :
      Fault d reg index (.ambiguousTerm index)
  | empty (edges : d.edges = none) (kinds : d.kinds = none) :
      Fault d reg index (.emptyTerm index)
  | unknown {error : ModelError} (one : d.edges.isSome ↔ d.kinds = none)
      (first : reg.firstUnknown? d.references = some error) :
      Fault d reg index (.model error)

def Draft.Rejected (d : Draft) (reg : Registry) (error : DraftError) : Prop :=
  ∃ before t after, d.terms = before ++ t :: after ∧ (∀ s ∈ before, s.Sound reg) ∧
    t.Fault reg before.length error

structure EdgeDraft.Resolved (d : EdgeDraft) (reg : Registry) (rule : EdgeRule) : Prop where
  known : ∀ r ∈ d.references, r.known reg
  forward : ∀ r, rule.followsForward r ↔ reg.Covers d.forward d.forwardSets r
  backward : ∀ r, rule.followsBackward r ↔ reg.Covers d.backward d.backwardSets r

inductive TermDraft.Gives (reg : Registry) (d : TermDraft) : Term → Prop where
  | edges {x : EdgeDraft} {rule : EdgeRule}
      (given : d.edges = some x) (resolved : x.Resolved reg rule) :
      Gives reg d (.mk (.edges x.describe rule) d.recursive d.cumulative)
  | kinds {names : List String} {filter : KindFilter}
      (given : d.kinds = some names)
      (accepts : ∀ kind, filter.accepts kind ↔
        kind ≠ .unknown ∧ ∃ name ∈ names, kind.isNamed name) :
      Gives reg d (.mk (.kinds filter) d.recursive d.cumulative)

end Path

end DependencyAtlas
