import DependencyAtlas.Graph
import DependencyAtlas.Path.Expression
import Mathlib.Logic.Relation

set_option autoImplicit false

namespace DependencyAtlas

namespace Graph

def Leads (g : Graph) (rule : EdgeRule) (a b : Node) : Prop :=
  ∃ e ∈ g.edges,
    (rule.followsForward e.relation ∧ e.head = a ∧ e.tail = b) ∨
    (rule.followsBackward e.relation ∧ e.tail = a ∧ e.head = b)

-- So many edges, at least one, lead from `a` to `b` one after the other.
inductive LeadsIn (g : Graph) (rule : EdgeRule) : Nat → Node → Node → Prop where
  | one {a b : Node} : g.Leads rule a b → LeadsIn g rule 1 a b
  | more {count : Nat} {a b c : Node} :
    LeadsIn g rule count a b → g.Leads rule b c → LeadsIn g rule (count + 1) a c

theorem leads_inverted {g : Graph} {rule : EdgeRule} {a b : Node} :
    g.Leads rule.inverted a b ↔ g.Leads rule b a := by
  simp only [Leads, EdgeRule.inverted, EdgeRule.followsForward, EdgeRule.followsBackward]
  grind

end Graph

namespace Path

section

variable (g : Graph)

mutual

def Selector.Relates : Selector → Node → Node → Prop
  | .edges _ rule => g.Leads rule
  | .kinds f => fun a b => a = b ∧ f.accepts a.kind
  | .path e => e.Relates

def Term.Relates : Term → Node → Node → Prop
  | .mk s true _ => Relation.TransGen s.Relates
  | .mk s false _ => s.Relates

def Expression.Relates : Expression → Node → Node → Prop
  | .mk _ terms => Related terms

def Related : List Term → Node → Node → Prop
  | [] => Eq
  | .mk s r true :: rest => Relation.Comp (Relation.ReflGen (Term.mk s r true).Relates)
    (Related rest)
  | .mk s r false :: rest => Relation.Comp (Term.mk s r false).Relates (Related rest)

end

end

-- The terms in reverse order, at all depths, and the rules inverted.
mutual

def Selector.dual : Selector → Selector
  | .edges name rule => .edges name rule.inverted
  | .kinds f => .kinds f
  | .path e => .path e.dual

def Term.dual : Term → Term
  | .mk s r c => .mk s.dual r c

def Expression.dual : Expression → Expression
  | .mk name terms => .mk name (dualTerms terms)

def dualTerms : List Term → List Term
  | [] => []
  | t :: rest => dualTerms rest ++ [t.dual]

end

theorem dualTerms_append (a b : List Term) : dualTerms (a ++ b) = dualTerms b ++ dualTerms a := by
  induction a with
  | nil => simp [dualTerms]
  | cons t rest ih => simp [dualTerms, ih]

mutual

@[simp] theorem Selector.dual_dual : (s : Selector) → s.dual.dual = s
  | .edges _ _ => rfl
  | .kinds _ => rfl
  | .path e => by rw [Selector.dual, Selector.dual, e.dual_dual]

@[simp] theorem Term.dual_dual : (t : Term) → t.dual.dual = t
  | .mk s _ _ => by rw [Term.dual, Term.dual, s.dual_dual]

@[simp] theorem Expression.dual_dual : (e : Expression) → e.dual.dual = e
  | .mk _ terms => by rw [Expression.dual, Expression.dual, dualTerms_dualTerms terms]

theorem dualTerms_dualTerms : (terms : List Term) → dualTerms (dualTerms terms) = terms
  | [] => rfl
  | t :: rest => by
    rw [dualTerms, dualTerms_append, dualTerms_dualTerms rest, dualTerms, dualTerms, t.dual_dual]
    rfl

end

end Path

structure Graph.Within (g h : Graph) : Prop where
  nodes : g.nodes ⊆ h.nodes
  edges : g.edges ⊆ h.edges

structure EdgeRule.Within (a b : EdgeRule) : Prop where
  forward : ∀ r, a.followsForward r → b.followsForward r
  backward : ∀ r, a.followsBackward r → b.followsBackward r

theorem Graph.subgraph_within (g : Graph) (keep : NodeSet) : (g.subgraph keep).Within g :=
  ⟨fun _ h => (List.mem_filter.1 h).1, fun _ h => (List.mem_filter.1 h).1⟩

namespace Path

-- The same shape, with fewer relations and fewer kinds.
mutual

def Selector.Within : Selector → Selector → Prop
  | .edges _ a, .edges _ b => a.Within b
  | .kinds a, .kinds b => ∀ kind, a.accepts kind → b.accepts kind
  | .path e, .path f => e.Within f
  | _, _ => False

def Term.Within : Term → Term → Prop
  | .mk s r c, .mk s' r' c' => s.Within s' ∧ r = r' ∧ c = c'

def Expression.Within : Expression → Expression → Prop
  | .mk _ ts, .mk _ us => TermsWithin ts us

def TermsWithin : List Term → List Term → Prop
  | [], [] => True
  | t :: ts, u :: us => t.Within u ∧ TermsWithin ts us
  | _, _ => False

end

end Path

end DependencyAtlas
