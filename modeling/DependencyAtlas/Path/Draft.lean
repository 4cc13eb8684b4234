import DependencyAtlas.Path.Expression
import DependencyAtlas.Registry

set_option autoImplicit false

namespace DependencyAtlas.Path

structure EdgeDraft where
  forward : List String := []
  backward : List String := []
  forwardSets : List String := []
  backwardSets : List String := []
deriving DecidableEq, Repr

structure TermDraft where
  edges : Option EdgeDraft := none
  kinds : Option (List String) := none
  recursive : Bool := false
  cumulative : Bool := false
deriving DecidableEq, Repr

structure Draft where
  name : Option String := none
  terms : List TermDraft := []
deriving DecidableEq, Repr

inductive DraftError where
  | model (error : ModelError)
  | ambiguousTerm (index : Nat)
  | emptyTerm (index : Nat)
deriving DecidableEq, Repr

def DraftError.message : DraftError → String
  | model e => e.message
  | ambiguousTerm index =>
    s!"Invalid term #{index}: a term takes either `edges` or `kinds`, not both"
  | emptyTerm index => s!"Invalid term #{index}: a term needs `edges` or `kinds`"

namespace EdgeDraft

-- What is followed forward is looked up first.
def resolve (d : EdgeDraft) (reg : Registry) : Except ModelError EdgeRule := do
  let forward ← reg.resolve d.forward d.forwardSets
  let backward ← reg.resolve d.backward d.backwardSets
  return ⟨forward, backward⟩

def describe (d : EdgeDraft) : String :=
  let followed := d.forward ++ d.forwardSets ++ (d.backward ++ d.backwardSets).map ("~" ++ ·)
  let names := ",".intercalate followed
  s!"edges[{names}]"

end EdgeDraft

def resolveKind (name : String) : Except ModelError NodeKind :=
  match NodeKind.ofName? name with
  | some kind => .ok kind
  | none => .error (.unknownNodeKind name)

def TermDraft.resolve (d : TermDraft) (reg : Registry) (index : Nat) : Except DraftError Term :=
  match d.edges, d.kinds with
  | some edges, none => do
    let rule ← (edges.resolve reg).mapError .model
    return .mk (.edges edges.describe rule) d.recursive d.cumulative
  | none, some names => do
    let kinds ← (names.mapM resolveKind).mapError .model
    return .mk (.kinds (.of kinds)) d.recursive d.cumulative
  | some _, some _ => .error (.ambiguousTerm index)
  | none, none => .error (.emptyTerm index)

namespace Draft

def resolveTerms (reg : Registry) : Nat → List TermDraft → Except DraftError (List Term)
  | _, [] => .ok []
  | index, d :: rest => do
    let term ← d.resolve reg index
    let terms ← resolveTerms reg (index + 1) rest
    return term :: terms

def resolve (d : Draft) (reg : Registry) : Except DraftError Expression := do
  return .mk d.name (← resolveTerms reg 0 d.terms)

def resolvedEvent (e : Expression) : Event :=
  ⟨.debug, s!"Built path expression with {e.terms.length} term(s)"⟩

end Draft

end DependencyAtlas.Path
