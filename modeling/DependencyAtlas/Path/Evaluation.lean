import DependencyAtlas.Graph
import DependencyAtlas.Path.Expression

set_option autoImplicit false

namespace DependencyAtlas.Path

structure TermRun where
  name : String
  rounds : Nat
  produced : Nat
deriving DecidableEq, Repr

def TermRun.event (r : TermRun) : Event :=
  ⟨.debug, s!"Term '{r.name}' ran {r.rounds} iteration(s), produced {r.produced} node(s)"⟩

structure Outcome where
  nodes : NodeSet
  runs : Array TermRun

-- Answers come from the input or from the graph, so that a repetition runs out of new nodes.
structure Operator (g : Graph) where
  apply : NodeSet → Outcome
  grounded : ∀ s id n, (apply s).nodes.find? id = some n → s.find? id = some n ∨ g.node? id = some n

namespace Operator

variable {g : Graph}

def identity : Operator g where
  apply s := ⟨s, #[]⟩
  grounded _ _ _ h := .inl h

def follow (rule : EdgeRule) : Operator g where
  apply s := ⟨g.related rule s, #[]⟩
  grounded _ _ _ h := .inr (Graph.node?_of_find?_related h)

def keep (p : Node → Bool) : Operator g where
  apply s := ⟨s.keep p, #[]⟩
  grounded s id n h := by
    rw [NodeSet.find?_keep, Option.filter_eq_some_iff] at h
    exact .inl h.1

def andThen (a b : Operator g) : Operator g where
  apply s :=
    let first := a.apply s
    let second := b.apply first.nodes
    ⟨second.nodes, first.runs ++ second.runs⟩
  grounded s id n h := (b.grounded _ id n h).elim (a.grounded s id n) .inr

def accumulated (a : Operator g) : Operator g where
  apply s :=
    let found := a.apply s
    ⟨s.join found.nodes, found.runs⟩
  grounded s id n h := by
    rw [NodeSet.find?_join, Option.or_eq_some_iff] at h
    exact h.elim .inl fun h => a.grounded s id n h.2

theorem within (a : Operator g) {s bound : NodeSet} (hs : s.Within bound)
    (hg : g.nodeSet.Within bound) : (a.apply s).nodes.Within bound := by
  intro id h
  obtain ⟨n, hn⟩ := Option.isSome_iff_exists.1 h
  rcases a.grounded s id n hn with found | found
  · exact hs id (by simp [found])
  · exact hg id (by simp [Graph.find?_nodeSet, found])

structure Rounds where
  outcome : Outcome
  count : Nat

-- The nodes that are found grow within `bound`, or it was the last round.
def rounds (a : Operator g) (again : Bool) (bound input : NodeSet) (found : Outcome) (count : Nat)
    (hg : g.nodeSet.Within bound) (hi : input.Within bound) (hf : found.nodes.Within bound) :
    Rounds :=
  let now := a.apply input
  let grown : Outcome := ⟨found.nodes.join now.nodes, found.runs ++ now.runs⟩
  if again ∧ found.nodes.size < grown.nodes.size then
    -- the next round starts from this one's result alone, not from all that was found
    rounds a again bound now.nodes grown (count + 1) hg (a.within hi hg) (hf.join (a.within hi hg))
  else ⟨grown, count + 1⟩
termination_by bound.size - found.nodes.size
decreasing_by
  have := (hf.join (a.within hi hg)).size_le
  grind

def run (a : Operator g) (again : Bool) (input : NodeSet) : Rounds :=
  a.rounds again (input.join g.nodeSet) input ⟨∅, #[]⟩ 0 (NodeSet.within_join_right _ _)
    (NodeSet.within_join_left _ _) (by intro id h; simp at h)

theorem grounded_rounds (a : Operator g) (again : Bool) (s bound input : NodeSet) (found : Outcome)
    (count : Nat) (hg hi hf)
    (inputs : ∀ id n, input.find? id = some n → s.find? id = some n ∨ g.node? id = some n)
    (founds : ∀ id n, found.nodes.find? id = some n → s.find? id = some n ∨ g.node? id = some n)
    (id : String) (n : Node)
    (h : (a.rounds again bound input found count hg hi hf).outcome.nodes.find? id = some n) :
    s.find? id = some n ∨ g.node? id = some n := by
  have now : ∀ id n, (a.apply input).nodes.find? id = some n →
      s.find? id = some n ∨ g.node? id = some n := fun id n h =>
    (a.grounded input id n h).elim (inputs id n) .inr
  have grown : ∀ id n, (found.nodes.join (a.apply input).nodes).find? id = some n →
      s.find? id = some n ∨ g.node? id = some n := by
    intro id n h
    rw [NodeSet.find?_join, Option.or_eq_some_iff] at h
    exact h.elim (founds id n) fun h => now id n h.2
  rw [rounds] at h
  split at h
  · exact grounded_rounds a again s bound _ _ _ _ _ _ now grown id n h
  · exact grown id n h
termination_by bound.size - found.nodes.size
decreasing_by
  have := (NodeSet.Within.join hf (a.within hi hg)).size_le
  grind

def term (a : Operator g) (name : String) (again : Bool) : Operator g where
  apply s :=
    let r := a.run again s
    ⟨r.outcome.nodes, r.outcome.runs.push ⟨name, r.count, r.outcome.nodes.size⟩⟩
  grounded s id n h :=
    a.grounded_rounds again s _ _ _ _ _ _ _ (fun _ _ h => .inl h) (by simp) id n h

end Operator

variable (g : Graph)

mutual

def Selector.operator : Selector → Operator g
  | .edges _ rule => .follow rule
  | .kinds f => .keep fun n => f.accepts n.kind
  | .path e => e.operator

def Term.operator : Term → Operator g
  | .mk s r _ => s.operator.term s.describe r

def Expression.operator : Expression → Operator g
  | .mk _ terms => pipeline terms

def pipeline : List Term → Operator g
  | [] => .identity
  | .mk s r c :: rest =>
    let op := (Term.mk s r c).operator
    (if c then op.accumulated else op).andThen (pipeline rest)

end

def Expression.select (e : Expression) (input : NodeSet) : NodeSet :=
  ((e.operator g).apply input).nodes

end DependencyAtlas.Path
