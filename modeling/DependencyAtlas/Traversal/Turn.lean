import DependencyAtlas.Traversal

set_option autoImplicit false

namespace DependencyAtlas.Traversal

variable {h : Hierarchy} {σ : Type}

def Progress.mark (p : Progress σ) (n : Node) : Progress σ := { p with visited := p.visited.add n }

-- What is left to a frame when it has come to its first pending child.
def Frame.pass (f : Frame h) : Frame h :=
  { f with
    pending := f.pending.tail
    pending_mem := fun c hc => f.pending_mem c (List.mem_of_mem_tail hc) }

theorem Frame.pending_pass {f : Frame h} {c : Node} {cs : List Node}
    (waiting : f.pending = c :: cs) : f.pass.pending = cs :=
  congrArg List.tail waiting

def turn (h : Hierarchy) (hooks : Hooks σ) (f : Frame h) (rest : List (Frame h)) (p : Progress σ) :
    List (Frame h) × Progress σ :=
  match f.pending with
  | [] => (rest, { p with state := settle hooks f.node f.level f.left f.placed p.state })
  | c :: _ =>
    if c ∈ p.visited then (f.pass :: rest, p)
    else
      (.enter h hooks c (f.level + 1) (p.mark c) :: { f.pass with placed := true } :: rest, p.mark c)

section

variable {f : Frame h} {c : Node} {cs : List Node} {rest : List (Frame h)} {p : Progress σ}

theorem turn_done (hooks : Hooks σ) (waiting : f.pending = []) :
    turn h hooks f rest p =
      (rest, { p with state := settle hooks f.node f.level f.left f.placed p.state }) := by
  rw [turn, waiting]

theorem turn_pass (hooks : Hooks σ) (waiting : f.pending = c :: cs) (known : c ∈ p.visited) :
    turn h hooks f rest p = (f.pass :: rest, p) := by
  rw [turn, waiting]
  exact if_pos known

theorem turn_push (hooks : Hooks σ) (waiting : f.pending = c :: cs) (fresh : c ∉ p.visited) :
    turn h hooks f rest p = (.enter h hooks c (f.level + 1) (p.mark c) ::
      { f.pass with placed := true } :: rest, p.mark c) := by
  rw [turn, waiting]
  exact if_neg fresh

theorem run_eq_run_turn (hooks : Hooks σ) (f : Frame h) (rest : List (Frame h)) (p : Progress σ) :
    run h hooks (f :: rest) p =
      run h hooks (turn h hooks f rest p).1 (turn h hooks f rest p).2 := by
  obtain ⟨n, level, pending, within, left, placed⟩ := f
  cases pending with
  | nil =>
    rw [run]
    rfl
  | cons c cs =>
    rw [run]
    by_cases known : c ∈ p.visited
    · simp [turn, known, Frame.pass]
    · simp [turn, known, Frame.pass, Progress.mark]

end

inductive Passes (h : Hierarchy) (hooks : Hooks σ) :
    List (Frame h) × Progress σ → List (Frame h) × Progress σ → Prop where
  | here (now : List (Frame h) × Progress σ) : Passes h hooks now now
  | turn {f : Frame h} {rest : List (Frame h)} {p : Progress σ}
      {later : List (Frame h) × Progress σ} :
    Passes h hooks (turn h hooks f rest p) later → Passes h hooks (f :: rest, p) later

-- The frame of `a` pushes one of `c`, now or later; `v` is what has been visited then.
inductive Pushes (h : Hierarchy) (hooks : Hooks σ) :
    List (Frame h) × Progress σ → Node → Node → NodeSet → Prop where
  | now {f : Frame h} {rest : List (Frame h)} {p : Progress σ} {c : Node} {cs : List Node} :
    f.pending = c :: cs → c ∉ p.visited →
    Pushes h hooks (f :: rest, p) f.node c (p.mark c).visited
  | later {f : Frame h} {rest : List (Frame h)} {p : Progress σ} {a c : Node} {v : NodeSet} :
    Pushes h hooks (turn h hooks f rest p) a c v → Pushes h hooks (f :: rest, p) a c v

section

variable {hooks : Hooks σ} {now between later : List (Frame h) × Progress σ}

theorem Passes.trans (first : Passes h hooks now between) (second : Passes h hooks between later) :
    Passes h hooks now later := by
  induction first with
  | here => exact second
  | turn _ ih => exact .turn (ih second)

theorem Passes.run_eq (passes : Passes h hooks now later) :
    run h hooks now.1 now.2 = run h hooks later.1 later.2 := by
  induction passes with
  | here => rfl
  | turn _ ih => rw [run_eq_run_turn, ih]

theorem Passes.pushes {a c : Node} {v : NodeSet} (passes : Passes h hooks now later)
    (pushes : Pushes h hooks later a c v) : Pushes h hooks now a c v := by
  induction passes with
  | here => exact pushes
  | turn _ ih => exact .later (ih pushes)

end

def Starts (h : Hierarchy) (hooks : Hooks σ) (roots : NodeSet) (p : Progress σ) (r : Node)
    (q : Progress σ) : Prop :=
  ∃ earlier later, roots.toList = earlier ++ r :: later ∧
    earlier.foldl (placeSubtree h hooks (hooks.rootLevel p.state roots)) p = q ∧ r ∉ q.visited

-- A child is entered on behalf of the node whose frame pushes it, a root on behalf of none.
inductive Entered (h : Hierarchy) (hooks : Hooks σ) (roots : NodeSet) (p : Progress σ) :
    Option Node → Node → NodeSet → Prop where
  | root {r : Node} {q : Progress σ} :
    Starts h hooks roots p r q → Entered h hooks roots p none r (q.mark r).visited
  | child {r : Node} {q : Progress σ} {a c : Node} {v : NodeSet} :
    Starts h hooks roots p r q →
    Pushes h hooks ([.enter h hooks r (hooks.rootLevel p.state roots) (q.mark r)], q.mark r) a c v →
    Entered h hooks roots p (some a) c v

end DependencyAtlas.Traversal
