import DependencyAtlas.Layout
import DependencyAtlas.Proofs.Traversal.Forest

set_option autoImplicit false

namespace DependencyAtlas

open Layout (Slot)

namespace Traversal.Forest

-- How many offsets a forest takes; a tree takes one at least.
def leaves : Forest → Nat
  | nil => 0
  | cons _ below beside => max 1 below.leaves + beside.leaves

def slots (level next : Nat) : Forest → List Slot
  | nil => []
  | cons n below beside =>
    let width := max 1 below.leaves
    below.slots (level + 1) next ++ ⟨n, level, next + (width - 1) / 2⟩ ::
      beside.slots level (next + width)

@[simp] theorem leaves_nil : nil.leaves = 0 := rfl

@[simp] theorem leaves_cons (n : Node) (below beside : Forest) :
    (cons n below beside).leaves = max 1 below.leaves + beside.leaves := rfl

@[simp] theorem slots_nil (level next : Nat) : nil.slots level next = [] := rfl

theorem slots_cons (level next : Nat) (n : Node) (below beside : Forest) :
    (cons n below beside).slots level next = below.slots (level + 1) next ++
      ⟨n, level, next + (max 1 below.leaves - 1) / 2⟩ ::
        beside.slots level (next + max 1 below.leaves) := rfl

theorem leaves_cons_pos (n : Node) (below beside : Forest) :
    0 < (cons n below beside).leaves := by
  rw [leaves_cons]
  omega

theorem nodes_slots (forest : Forest) (level next : Nat) :
    (forest.slots level next).map (·.node) = forest.nodes := by
  induction forest generalizing level next with
  | nil => rfl
  | cons n below beside ihBelow ihBeside => simp [slots_cons, ihBelow, ihBeside]

theorem level_le (forest : Forest) (level next : Nat) :
    ∀ s ∈ forest.slots level next, level ≤ s.level := by
  induction forest generalizing level next with
  | nil => simp
  | cons n below beside ihBelow ihBeside =>
    intro s hs
    rw [slots_cons, List.mem_append, List.mem_cons] at hs
    rcases hs with inBelow | here | inBeside
    · have := ihBelow (level + 1) next s inBelow
      omega
    · simp [here]
    · exact ihBeside level _ s inBeside

theorem eq_root_of_level {n : Node} {below : Forest} {level next : Nat} {s : Slot}
    (hs : s ∈ (cons n below nil).slots level next) (start : s.level = level) :
    s = ⟨n, level, next + (max 1 below.leaves - 1) / 2⟩ := by
  rw [slots_cons, slots_nil, List.mem_append, List.mem_singleton] at hs
  rcases hs with inBelow | here
  · have := level_le below (level + 1) next s inBelow
    omega
  · exact here

theorem offset_mem (forest : Forest) (level next : Nat) :
    ∀ s ∈ forest.slots level next, next ≤ s.offset ∧ s.offset < next + forest.leaves := by
  induction forest generalizing level next with
  | nil => simp
  | cons n below beside ihBelow ihBeside =>
    intro s hs
    rw [slots_cons, List.mem_append, List.mem_cons] at hs
    rw [leaves_cons]
    rcases hs with inBelow | here | inBeside
    · have := ihBelow (level + 1) next s inBelow
      omega
    · rw [here]
      dsimp only
      omega
    · have := ihBeside level _ s inBeside
      omega

theorem slots_increase (forest : Forest) (level next : Nat) :
    (forest.slots level next).Pairwise fun s t => s.level = t.level → s.offset < t.offset := by
  induction forest generalizing level next with
  | nil => simp
  | cons n below beside ihBelow ihBeside =>
    rw [slots_cons, List.pairwise_append, List.pairwise_cons]
    refine ⟨ihBelow (level + 1) next, ⟨?_, ihBeside level _⟩, ?_⟩
    · intro t ht _
      have := offset_mem beside level _ t ht
      dsimp only
      omega
    · intro s hs t ht same
      have deeper := level_le below (level + 1) next s hs
      have before := offset_mem below (level + 1) next s hs
      rcases List.mem_cons.1 ht with here | inBeside
      · rw [here] at same
        dsimp only at same
        omega
      · have := offset_mem beside level _ t inBeside
        omega

end Traversal.Forest

namespace Hooks

open Traversal

variable {σ : Type}

-- One counter for all levels, which an assignment leaves as it is.
structure Counter (hooks : Hooks σ) (next : σ → Nat) : Prop where
  offset : ∀ s level, hooks.offset s level = next s
  advance : ∀ s level, next (hooks.advance s level) = next s + 1
  assign : ∀ s n level offset, next (hooks.assign s n level offset) = next s

-- What `view` shows of the state changes by assignments alone.
structure Shows {α : Type} (hooks : Hooks σ) (view : σ → α) (step : α → Slot → α) : Prop where
  advance : ∀ s level, view (hooks.advance s level) = view s
  assign : ∀ s n level offset, view (hooks.assign s n level offset) = step (view s) ⟨n, level, offset⟩

namespace Counter

variable {hooks : Hooks σ} {next : σ → Nat}

-- A tree takes one offset, or those that were taken below its root.
theorem next_settle (counter : hooks.Counter next) (n : Node) (level : Nat) (below : Forest)
    (s done : σ) (grown : next done = next s + below.leaves) :
    next (settle hooks n level (hooks.offset s (level + 1)) (!below.isEmpty) done) =
      next s + max 1 below.leaves := by
  cases below with
  | nil => simp_all [settle, Forest.isEmpty, counter.advance, counter.assign]
  | cons m inner beside =>
    have some := Forest.leaves_cons_pos m inner beside
    have used : next s < next done := by omega
    simp only [settle, counter.offset, Forest.isEmpty, used]
    simp only [Bool.not_false, decide_true, Bool.and_self, if_true, counter.assign]
    omega

theorem view_settle {α : Type} {view : σ → α} {step : α → Slot → α} (counter : hooks.Counter next)
    (shows : hooks.Shows view step) (n : Node) (level : Nat) (below : Forest) (s done : σ)
    (grown : next done = next s + below.leaves) :
    view (settle hooks n level (hooks.offset s (level + 1)) (!below.isEmpty) done) =
      step (view done) ⟨n, level, next s + (max 1 below.leaves - 1) / 2⟩ := by
  cases below with
  | nil => simp_all [settle, Forest.isEmpty, counter.offset, shows.advance, shows.assign]
  | cons m inner beside =>
    have some := Forest.leaves_cons_pos m inner beside
    have used : next s < next done := by omega
    have middle : (next s + (next done - 1)) / 2 =
        next s + (max 1 (Forest.cons m inner beside).leaves - 1) / 2 := by omega
    simp only [settle, counter.offset, Forest.isEmpty, used]
    simp only [Bool.not_false, decide_true, Bool.and_self, if_true, shows.assign, middle]

theorem next_place (counter : hooks.Counter next) (forest : Forest) (level : Nat) (s : σ) :
    next (forest.place hooks level s) = next s + forest.leaves := by
  induction forest generalizing level s with
  | nil => rfl
  | cons n below beside ihBelow ihBeside =>
    rw [Forest.place_cons, ihBeside, counter.next_settle n level below s _ (ihBelow _ s),
      Forest.leaves_cons, Nat.add_assoc]

theorem view_place {α : Type} {view : σ → α} {step : α → Slot → α} (counter : hooks.Counter next)
    (shows : hooks.Shows view step) (forest : Forest) (level : Nat) (s : σ) :
    view (forest.place hooks level s) = (forest.slots level (next s)).foldl step (view s) := by
  induction forest generalizing level s with
  | nil => rfl
  | cons n below beside ihBelow ihBeside =>
    have grown := counter.next_place below (level + 1) s
    rw [Forest.place_cons, ihBeside, counter.next_settle n level below s _ grown,
      counter.view_settle shows n level below s _ grown, ihBelow, Forest.slots_cons,
      List.foldl_append, List.foldl_cons]

end Counter

end Hooks

end DependencyAtlas
