import DependencyAtlas.Path.Evaluation
import DependencyAtlas.Proofs.NodeSet

set_option autoImplicit false

namespace DependencyAtlas.Path

abbrev Step := NodeSet → Outcome → Prop

-- A repetition without end is not related to anything.
inductive Repeats (step : Step) (again : Bool) : NodeSet → Outcome → Nat → Operator.Rounds → Prop where
  | last {input : NodeSet} {found now : Outcome} {count : Nat} :
    step input now → (again → now.nodes.Within found.nodes) →
    Repeats step again input found count
      ⟨⟨found.nodes.join now.nodes, found.runs ++ now.runs⟩, count + 1⟩
  | more {input : NodeSet} {found now : Outcome} {count : Nat} {r : Operator.Rounds} :
    step input now → again → ¬ now.nodes.Within found.nodes →
    Repeats step again now.nodes ⟨found.nodes.join now.nodes, found.runs ++ now.runs⟩ (count + 1) r →
    Repeats step again input found count r

namespace Step

def andThen (first second : Step) : Step := fun s o =>
  ∃ f l, first s f ∧ second f.nodes l ∧ o = ⟨l.nodes, f.runs ++ l.runs⟩

def accumulated (step : Step) : Step := fun s o => ∃ f, step s f ∧ o = ⟨s.join f.nodes, f.runs⟩

def term (step : Step) (name : String) (again : Bool) : Step := fun s o =>
  ∃ r, Repeats step again s ⟨∅, #[]⟩ 0 r ∧
    o = ⟨r.outcome.nodes, r.outcome.runs.push ⟨name, r.count, r.outcome.nodes.size⟩⟩

end Step

section Evaluates

variable (g : Graph)

mutual

def Selector.Evaluates : Selector → Step
  | .edges _ rule => fun s o => o = ⟨g.related rule s, #[]⟩
  | .kinds f => fun s o => o = ⟨s.keep fun n => f.accepts n.kind, #[]⟩
  | .path e => e.Evaluates

def Term.Evaluates : Term → Step
  | .mk x r _ => x.Evaluates.term x.describe r

def Expression.Evaluates : Expression → Step
  | .mk _ terms => Evaluated terms

def Evaluated : List Term → Step
  | [] => fun s o => o = ⟨s, #[]⟩
  | .mk x r true :: rest => (Term.mk x r true).Evaluates.accumulated.andThen (Evaluated rest)
  | .mk x r false :: rest => (Term.mk x r false).Evaluates.andThen (Evaluated rest)

end

end Evaluates

namespace Repeats

variable {step : Step} {again : Bool} {input : NodeSet} {found : Outcome} {count : Nat}
  {r : Operator.Rounds}

-- Each round but the last one makes the number of nodes grow.
theorem count_le (repeats : Repeats step again input found count r)
    (start : count ≤ found.nodes.size) : r.count ≤ r.outcome.nodes.size + 1 := by
  induction repeats with
  | @last _ found now _ _ _ =>
    have kept := (NodeSet.within_join_left found.nodes now.nodes).size_le
    dsimp only
    omega
  | more _ _ new _ ih =>
    have grown := NodeSet.size_lt_size_join_iff.2 new
    apply ih
    dsimp only
    omega

theorem forall_runs {holds : TermRun → Prop} (steps : ∀ s o, step s o → ∀ run ∈ o.runs, holds run)
    (repeats : Repeats step again input found count r) (before : ∀ run ∈ found.runs, holds run) :
    ∀ run ∈ r.outcome.runs, holds run := by
  induction repeats with
  | last now _ => exact Array.forall_mem_append.2 ⟨before, steps _ _ now⟩
  | more now _ _ _ ih => exact ih (Array.forall_mem_append.2 ⟨before, steps _ _ now⟩)

end Repeats

namespace Step

-- All the terms that are run on the way, at any depth, keep to the bound.
def Paced (step : Step) : Prop := ∀ s o, step s o → ∀ run ∈ o.runs, run.rounds ≤ run.produced + 1

theorem paced_of_no_runs {answer : NodeSet → NodeSet} : Paced fun s o => o = ⟨answer s, #[]⟩ := by
  rintro s o rfl run listed
  simp at listed

theorem Paced.andThen {first second : Step} (paced : first.Paced) (others : second.Paced) :
    (first.andThen second).Paced := by
  intro s o evaluates
  obtain ⟨f, l, before, after, rfl⟩ := evaluates
  exact Array.forall_mem_append.2 ⟨paced s f before, others f.nodes l after⟩

theorem Paced.accumulated {step : Step} (paced : step.Paced) : step.accumulated.Paced := by
  intro s o evaluates
  obtain ⟨f, found, rfl⟩ := evaluates
  exact paced s f found

theorem Paced.term {step : Step} (paced : step.Paced) (name : String) (again : Bool) :
    (step.term name again).Paced := by
  intro s o evaluates
  obtain ⟨r, repeats, rfl⟩ := evaluates
  refine Array.forall_mem_push.2 ⟨?_, repeats.forall_runs paced (by simp)⟩
  exact repeats.count_le (Nat.zero_le _)

end Step

namespace Operator

variable {g : Graph} {op : Operator g} {step : Step}

def Answers (op : Operator g) (step : Step) : Prop := ∀ s o, step s o ↔ o = op.apply s

-- The bound has no part in the relation: it only tells why the rounds that it describes exist.
theorem Answers.repeats_rounds (answers : op.Answers step) (again : Bool) (bound input : NodeSet)
    (found : Outcome) (count : Nat) (hg hi hf) :
    Repeats step again input found count (op.rounds again bound input found count hg hi hf) := by
  have now : step input (op.apply input) := (answers _ _).2 rfl
  rw [rounds]
  split
  · next goesOn =>
    exact .more now goesOn.1 (NodeSet.size_lt_size_join_iff.1 goesOn.2)
      (answers.repeats_rounds again bound _ _ _ _ _ _)
  · next ended =>
    refine .last now fun marked => Classical.byContradiction fun new => ?_
    exact ended ⟨marked, NodeSet.size_lt_size_join_iff.2 new⟩
termination_by bound.size - found.nodes.size
decreasing_by
  have := (NodeSet.Within.join hf (op.within hi hg)).size_le
  grind

theorem Answers.eq_rounds (answers : op.Answers step) {again : Bool} {bound input : NodeSet}
    {found : Outcome} {count : Nat} {r : Rounds} (repeats : Repeats step again input found count r)
    (hg hi hf) : r = op.rounds again bound input found count hg hi hf := by
  induction repeats with
  | last now ended =>
    obtain rfl := (answers _ _).1 now
    rw [rounds, if_neg]
    intro goesOn
    exact NodeSet.size_lt_size_join_iff.1 goesOn.2 (ended goesOn.1)
  | more now marked new _ ih =>
    obtain rfl := (answers _ _).1 now
    rw [rounds, if_pos ⟨marked, NodeSet.size_lt_size_join_iff.2 new⟩]
    exact ih _ _

theorem Answers.term (answers : op.Answers step) (name : String) (again : Bool) :
    (op.term name again).Answers (step.term name again) := by
  intro s o
  constructor
  · intro evaluates
    obtain ⟨r, repeats, rfl⟩ := evaluates
    have same : r = op.run again s := answers.eq_rounds repeats _ _ _
    rw [same]
    rfl
  · rintro rfl
    exact ⟨op.run again s, answers.repeats_rounds again _ s _ _ _ _ _, rfl⟩

theorem Answers.andThen {a b : Operator g} {first second : Step} (ha : a.Answers first)
    (hb : b.Answers second) : (a.andThen b).Answers (first.andThen second) := by
  intro s o
  constructor
  · intro evaluates
    obtain ⟨f, l, before, after, rfl⟩ := evaluates
    obtain rfl := (ha _ _).1 before
    obtain rfl := (hb _ _).1 after
    rfl
  · rintro rfl
    exact ⟨_, _, (ha _ _).2 rfl, (hb _ _).2 rfl, rfl⟩

theorem Answers.accumulated (answers : op.Answers step) :
    op.accumulated.Answers step.accumulated := by
  intro s o
  constructor
  · intro evaluates
    obtain ⟨f, found, rfl⟩ := evaluates
    obtain rfl := (answers _ _).1 found
    rfl
  · rintro rfl
    exact ⟨_, (answers _ _).2 rfl, rfl⟩

end Operator

variable (g : Graph)

mutual

theorem Selector.answers : (x : Selector) → (x.operator g).Answers (x.Evaluates g)
  | .edges _ _ => by
    rw [Selector.operator, Selector.Evaluates]
    exact fun _ _ => .rfl
  | .kinds _ => by
    rw [Selector.operator, Selector.Evaluates]
    exact fun _ _ => .rfl
  | .path e => by
    rw [Selector.operator, Selector.Evaluates]
    exact e.answers

theorem Term.answers : (t : Term) → (t.operator g).Answers (t.Evaluates g)
  | .mk x r _ => by
    rw [Term.operator, Term.Evaluates]
    exact x.answers.term x.describe r

theorem Expression.answers : (e : Expression) → (e.operator g).Answers (e.Evaluates g)
  | .mk _ terms => by
    rw [Expression.operator, Expression.Evaluates]
    exact pipeline_answers terms

theorem pipeline_answers : (terms : List Term) → (pipeline g terms).Answers (Evaluated g terms)
  | [] => by
    rw [pipeline, Evaluated]
    exact fun _ _ => .rfl
  | .mk x r true :: rest => by
    rw [pipeline, Evaluated]
    exact (Term.answers (.mk x r true)).accumulated.andThen (pipeline_answers rest)
  | .mk x r false :: rest => by
    rw [pipeline, Evaluated]
    exact (Term.answers (.mk x r false)).andThen (pipeline_answers rest)

end

mutual

theorem Selector.paced : (x : Selector) → (x.Evaluates g).Paced
  | .edges _ _ => by
    rw [Selector.Evaluates]
    exact Step.paced_of_no_runs
  | .kinds _ => by
    rw [Selector.Evaluates]
    exact Step.paced_of_no_runs
  | .path e => by
    rw [Selector.Evaluates]
    exact e.paced

theorem Term.paced : (t : Term) → (t.Evaluates g).Paced
  | .mk x r _ => by
    rw [Term.Evaluates]
    exact x.paced.term x.describe r

theorem Expression.paced : (e : Expression) → (e.Evaluates g).Paced
  | .mk _ terms => by
    rw [Expression.Evaluates]
    exact evaluated_paced terms

theorem evaluated_paced : (terms : List Term) → (Evaluated g terms).Paced
  | [] => by
    rw [Evaluated]
    exact Step.paced_of_no_runs
  | .mk x r true :: rest => by
    rw [Evaluated]
    exact (Term.paced (.mk x r true)).accumulated.andThen (evaluated_paced rest)
  | .mk x r false :: rest => by
    rw [Evaluated]
    exact (Term.paced (.mk x r false)).andThen (evaluated_paced rest)

end

-- The nodes need not be of the graph; no term runs more rounds than it finds nodes, and one.
theorem evaluates_once (e : Expression) (input : NodeSet) :
    e.Evaluates g input ((e.operator g).apply input) ∧
      (∀ o, e.Evaluates g input o → o = (e.operator g).apply input) ∧
      (∀ n ∈ (e.select g input).toList, n ∈ input.toList ∨ n ∈ g.nodes) ∧
      ∀ run ∈ ((e.operator g).apply input).runs, run.rounds ≤ run.produced + 1 := by
  have evaluates : e.Evaluates g input ((e.operator g).apply input) := (e.answers g input _).2 rfl
  refine ⟨evaluates, fun o => (e.answers g input o).1, ?_, e.paced g input _ evaluates⟩
  intro n hn
  rcases (e.operator g).grounded input n.id n (NodeSet.mem_toList.1 hn) with kept | found
  · exact .inl (NodeSet.mem_toList.2 kept)
  · exact .inr (Graph.node?_eq_some_iff.1 found).1

end DependencyAtlas.Path
