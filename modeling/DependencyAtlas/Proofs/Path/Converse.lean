import DependencyAtlas.Proofs.Path.Selection

set_option autoImplicit false

namespace DependencyAtlas.Path

variable (g : Graph)

-- A cumulative term keeps the nodes that it is given.
def Term.Carries : Term → Node → Node → Prop
  | .mk s r true => Relation.ReflGen ((Term.mk s r true).Relates g)
  | .mk s r false => (Term.mk s r false).Relates g

theorem related_cons (t : Term) (rest : List Term) :
    Related g (t :: rest) = Relation.Comp (t.Carries g) (Related g rest) := by
  obtain ⟨s, r, c⟩ := t
  cases c <;> rw [Related, Term.Carries]

theorem related_singleton (t : Term) : Related g [t] = t.Carries g := by
  rw [related_cons, Related]
  exact Relation.comp_eq

theorem related_append (terms others : List Term) :
    Related g (terms ++ others) = Relation.Comp (Related g terms) (Related g others) := by
  induction terms with
  | nil =>
    rw [List.nil_append, Related]
    exact Relation.eq_comp.symm
  | cons t rest ih => rw [List.cons_append, related_cons, ih, related_cons, Relation.comp_assoc]

theorem transGen_flip {α : Type} (R : α → α → Prop) :
    Relation.TransGen (flip R) = flip (Relation.TransGen R) :=
  funext fun _ => funext fun _ => propext Relation.transGen_swap

theorem reflGen_flip {α : Type} (R : α → α → Prop) :
    Relation.ReflGen (flip R) = flip (Relation.ReflGen R) := by
  funext a b
  rw [flip, Relation.reflGen_iff, Relation.reflGen_iff, flip, eq_comm (a := a)]

-- The converse of what a term relates; keeping what it is given has itself as its converse.
theorem carries_mk_of_flip {s t : Selector} (r c : Bool)
    (relates : (Term.mk t r c).Relates g = flip ((Term.mk s r c).Relates g)) :
    (Term.mk t r c).Carries g = flip ((Term.mk s r c).Carries g) := by
  cases c with
  | true => rw [Term.Carries, Term.Carries, relates, reflGen_flip]
  | false => rw [Term.Carries, Term.Carries, relates]

mutual

theorem Selector.relates_dual : (s : Selector) → s.dual.Relates g = flip (s.Relates g)
  | .edges _ rule => by
    rw [Selector.dual, Selector.Relates, Selector.Relates]
    exact funext fun _ => funext fun _ => propext Graph.leads_inverted
  | .kinds f => by
    rw [Selector.dual, Selector.Relates]
    funext a b
    rw [flip, eq_iff_iff]
    constructor
    · rintro ⟨rfl, accepted⟩
      exact ⟨rfl, accepted⟩
    · rintro ⟨rfl, accepted⟩
      exact ⟨rfl, accepted⟩
  | .path e => by
    rw [Selector.dual, Selector.Relates, Selector.Relates, e.relates_dual]

theorem Term.relates_dual : (t : Term) → t.dual.Relates g = flip (t.Relates g)
  | .mk s true c => by
    rw [Term.dual, Term.Relates, Term.Relates, s.relates_dual, transGen_flip]
  | .mk s false c => by
    rw [Term.dual, Term.Relates, Term.Relates, s.relates_dual]

theorem Expression.relates_dual : (e : Expression) → e.dual.Relates g = flip (e.Relates g)
  | .mk _ terms => by
    rw [Expression.dual, Expression.Relates, Expression.Relates, related_dualTerms terms]

theorem related_dualTerms : (terms : List Term) →
    Related g (dualTerms terms) = flip (Related g terms)
  | [] => by
    rw [dualTerms, Related]
    exact funext fun _ => funext fun _ => propext eq_comm
  | .mk s r c :: rest => by
    have step : (Term.mk s r c).dual.Carries g = flip ((Term.mk s r c).Carries g) :=
      carries_mk_of_flip g r c (Term.relates_dual (.mk s r c))
    rw [dualTerms, related_append, related_singleton, related_dualTerms rest, step,
      ← Relation.flip_comp, ← related_cons]

end

variable {g}

theorem mem_select_singleton_iff (e : Expression) {a b : Node} (ha : a ∈ g.nodes)
    (hb : b ∈ g.nodes) : b ∈ e.select g (.singleton a) ↔ e.Relates g a b := by
  have own : g.Owns (.singleton a) := g.owns_singleton ha
  have found : g.Owns (e.select g (.singleton a)) := (e.operator g).owns_apply own
  have images : b ∈ (e.select g (.singleton a)).toList ↔ _ := e.images g (.singleton a) own b
  rw [found.mem_iff hb, images]
  constructor
  · intro related
    obtain ⟨start, listed, related⟩ := related
    rwa [NodeSet.mem_toList_singleton.1 listed] at related
  · intro related
    exact ⟨a, NodeSet.mem_toList_singleton.2 rfl, related⟩

theorem mem_select_iff_mem_select_dual (e : Expression) {a b : Node} (ha : a ∈ g.nodes)
    (hb : b ∈ g.nodes) :
    b ∈ e.select g (.singleton a) ↔ a ∈ e.dual.select g (.singleton b) := by
  rw [mem_select_singleton_iff e ha hb, mem_select_singleton_iff e.dual hb ha,
    Expression.relates_dual, flip]

theorem usedMethods_way_back :
    ⟨"a", "a", .type⟩ ∈ triangle.nodes ∧ ⟨"c", "c", .method⟩ ∈ triangle.nodes ∧
      ⟨"c", "c", .method⟩ ∈ usedMethods.select triangle (.singleton ⟨"a", "a", .type⟩) ∧
      ⟨"a", "a", .type⟩ ∈ usedMethods.dual.select triangle (.singleton ⟨"c", "c", .method⟩) := by
  have user : ⟨"a", "a", .type⟩ ∈ triangle.nodes := by decide
  have method : ⟨"c", "c", .method⟩ ∈ triangle.nodes := by decide
  have found : ⟨"c", "c", .method⟩ ∈ usedMethods.select triangle (.singleton ⟨"a", "a", .type⟩) := by
    decide +kernel
  exact ⟨user, method, found, (mem_select_iff_mem_select_dual usedMethods user method).1 found⟩

end DependencyAtlas.Path
