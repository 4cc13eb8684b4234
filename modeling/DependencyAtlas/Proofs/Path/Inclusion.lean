import DependencyAtlas.Proofs.Path.Converse

set_option autoImplicit false

namespace DependencyAtlas

namespace Graph

variable {g h : Graph} {a b : EdgeRule}

theorem leads_mono (edges : g.edges ⊆ h.edges) (rules : a.Within b) : g.Leads a ≤ h.Leads b := by
  intro m n leads
  obtain ⟨e, he, ⟨follows, ends⟩ | ⟨follows, ends⟩⟩ := leads
  · exact ⟨e, edges he, .inl ⟨rules.forward _ follows, ends⟩⟩
  · exact ⟨e, edges he, .inr ⟨rules.backward _ follows, ends⟩⟩

-- The edges of the smaller graph among all nodes of the larger one.
def Within.spread (within : g.Within h) : Graph where
  nodes := h.nodes
  edges := g.edges
  ids_nodup := h.ids_nodup
  edges_nodup := g.edges_nodup
  ends_mem e he := ⟨within.nodes (g.ends_mem e he).1, within.nodes (g.ends_mem e he).2⟩

theorem Owns.mono {s : NodeSet} (own : g.Owns s) (within : g.Within h) : h.Owns s :=
  fun n hn => within.nodes (own n hn)

end Graph

namespace Path

variable {g h : Graph}

theorem comp_mono {R R' S S' : Node → Node → Prop} (first : R ≤ R') (second : S ≤ S') :
    Relation.Comp R S ≤ Relation.Comp R' S' := by
  intro a c composed
  obtain ⟨b, related, further⟩ := composed
  exact ⟨b, first a b related, second b c further⟩

theorem carries_mono {s t : Selector} {r : Bool} (c : Bool)
    (relates : (Term.mk s r c).Relates g ≤ (Term.mk t r c).Relates h) :
    (Term.mk s r c).Carries g ≤ (Term.mk t r c).Carries h := by
  cases c with
  | true =>
    rw [Term.Carries, Term.Carries]
    exact Relation.ReflGen.mono relates
  | false =>
    rw [Term.Carries, Term.Carries]
    exact relates

mutual

theorem Selector.relates_mono (edges : g.edges ⊆ h.edges) :
    (s t : Selector) → s.Within t → s.Relates g ≤ t.Relates h
  | .edges _ a, t, within => by
    cases t with
    | edges _ b =>
      rw [Selector.Within] at within
      rw [Selector.Relates, Selector.Relates]
      exact Graph.leads_mono edges within
    | kinds _ | path _ => simp [Selector.Within] at within
  | .kinds k, t, within => by
    cases t with
    | kinds l =>
      rw [Selector.Within] at within
      rw [Selector.Relates, Selector.Relates]
      intro m n related
      exact ⟨related.1, within m.kind related.2⟩
    | edges _ _ | path _ => simp [Selector.Within] at within
  | .path e, t, within => by
    cases t with
    | path f =>
      rw [Selector.Within] at within
      rw [Selector.Relates, Selector.Relates]
      exact e.relates_mono edges f within
    | edges _ _ | kinds _ => simp [Selector.Within] at within

theorem Term.relates_mono (edges : g.edges ⊆ h.edges) :
    (t u : Term) → t.Within u → t.Relates g ≤ u.Relates h
  | .mk s r c, .mk s' r' c', within => by
    rw [Term.Within] at within
    obtain ⟨selectors, rfl, rfl⟩ := within
    have step : s.Relates g ≤ s'.Relates h := s.relates_mono edges s' selectors
    cases r with
    | true =>
      rw [Term.Relates, Term.Relates]
      exact Relation.TransGen.mono step
    | false =>
      rw [Term.Relates, Term.Relates]
      exact step

theorem Expression.relates_mono (edges : g.edges ⊆ h.edges) :
    (e f : Expression) → e.Within f → e.Relates g ≤ f.Relates h
  | .mk _ ts, .mk _ us, within => by
    rw [Expression.Within] at within
    rw [Expression.Relates, Expression.Relates]
    exact related_mono edges ts us within

theorem related_mono (edges : g.edges ⊆ h.edges) :
    (ts us : List Term) → TermsWithin ts us → Related g ts ≤ Related h us
  | [], us, within => by
    cases us with
    | nil =>
      intro m n same
      rw [Related] at same ⊢
      exact same
    | cons _ _ => simp [TermsWithin] at within
  | .mk s r c :: ts, us, within => by
    cases us with
    | nil => simp [TermsWithin] at within
    | cons u us =>
      obtain ⟨s', r', c'⟩ := u
      rw [TermsWithin] at within
      obtain ⟨first, rest⟩ := within
      have step := Term.relates_mono edges (.mk s r c) (.mk s' r' c') first
      rw [Term.Within] at first
      obtain ⟨-, rfl, rfl⟩ := first
      rw [related_cons, related_cons]
      exact comp_mono (carries_mono c step) (related_mono edges ts us rest)

end

mutual

theorem Selector.within_refl : (s : Selector) → s.Within s
  | .edges _ _ => by
    rw [Selector.Within]
    exact ⟨fun _ follows => follows, fun _ follows => follows⟩
  | .kinds _ => by
    rw [Selector.Within]
    exact fun _ accepted => accepted
  | .path e => by
    rw [Selector.Within]
    exact e.within_refl

theorem Term.within_refl : (t : Term) → t.Within t
  | .mk s _ _ => by
    rw [Term.Within]
    exact ⟨s.within_refl, rfl, rfl⟩

theorem Expression.within_refl : (e : Expression) → e.Within e
  | .mk _ ts => by
    rw [Expression.Within]
    exact terms_within_refl ts

theorem terms_within_refl : (ts : List Term) → TermsWithin ts ts
  | [] => by
    rw [TermsWithin]
    trivial
  | t :: ts => by
    rw [TermsWithin]
    exact ⟨t.within_refl, terms_within_refl ts⟩

end

-- The start need not lie in the smaller graph: its edges are followed among the nodes of the larger one.
theorem select_subset (graphs : g.Within h) {e f : Expression} (expressions : e.Within f)
    {s t : NodeSet} (own : h.Owns s) (owns : h.Owns t) (inputs : s.Within t) :
    (e.select g s).toList ⊆ (f.select h t).toList := by
  have same : ∀ x, x ∈ g.edges ↔ x ∈ graphs.spread.edges := fun _ => Iff.rfl
  have spread : e.select g s = e.select graphs.spread s := e.select_eq_of_edges same s
  have edges : graphs.spread.edges ⊆ h.edges := graphs.edges
  have relations : e.Relates graphs.spread ≤ f.Relates h := e.relates_mono edges f expressions
  intro n selected
  rw [spread] at selected
  obtain ⟨a, ha, related⟩ := (e.images graphs.spread s own n).1 selected
  exact (f.images h t owns n).2 ⟨a, (own.within_iff owns).1 inputs ha, relations a n related⟩

theorem select_monotone (g : Graph) (e : Expression) :
    (∀ (h : Graph) (f : Expression) (s t : NodeSet), g.Within h → e.Within f →
      (∀ n ∈ s.toList, n ∈ g.nodes) → (∀ n ∈ t.toList, n ∈ h.nodes) → s.Within t →
        (e.select g s).toList ⊆ (f.select h t).toList) ∧
    ∀ keep start : NodeSet, (∀ n ∈ start.toList, n ∈ g.nodes) →
      (e.select (g.subgraph keep) start).toList ⊆ (e.select g start).toList := by
  constructor
  · intro h f s t graphs expressions own owns inputs
    exact select_subset graphs expressions (Graph.Owns.mono own graphs) owns inputs
  · intro keep start own
    exact select_subset (g.subgraph_within keep) e.within_refl own own (.refl start)

def usedBy (relations : RelationSet) : Expression :=
  .mk none [.mk (.path (.mk none [.mk (.edges "step" (.along relations)) false false])) true false]

def corner : NodeSet := .ofNodes [⟨"a", "a", .type⟩, ⟨"b", "b", .type⟩]

theorem usedBy_grows :
    (triangle.subgraph corner).Within triangle ∧
      (usedBy (.single ⟨"uses", "used by"⟩)).Within (usedBy .all) ∧
      ((usedBy (.single ⟨"uses", "used by"⟩)).select (triangle.subgraph corner)
        (.singleton ⟨"a", "a", .type⟩)).ids = ["b"] ∧
      ((usedBy .all).select triangle corner).ids = ["a", "b", "c"] ∧
      ((usedBy (.single ⟨"uses", "used by"⟩)).select (triangle.subgraph corner)
        (.singleton ⟨"a", "a", .type⟩)).toList ⊆ ((usedBy .all).select triangle corner).toList := by
  have graphs := triangle.subgraph_within corner
  have rules : (EdgeRule.along (.single ⟨"uses", "used by"⟩)).Within (.along .all) :=
    ⟨fun _ _ => rfl, fun _ follows => follows⟩
  have expressions : (usedBy (.single ⟨"uses", "used by"⟩)).Within (usedBy .all) := by
    simpa [usedBy, Expression.Within, TermsWithin, Term.Within, Selector.Within] using rules
  have inputs : (NodeSet.singleton ⟨"a", "a", .type⟩).Within corner := by
    intro id present
    rw [NodeSet.find?_singleton] at present
    split at present
    · next here =>
      subst here
      decide +kernel
    · cases present
  exact ⟨graphs, expressions, by decide +kernel, by decide +kernel, (select_monotone _ _).1 _ _ _ _
    graphs expressions (by decide +kernel) (by decide +kernel) inputs⟩

end Path

end DependencyAtlas
