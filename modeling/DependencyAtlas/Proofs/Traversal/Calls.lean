import DependencyAtlas.Proofs.Traversal.Forest

set_option autoImplicit false

namespace DependencyAtlas

def Call.node? : Call → Option Node
  | .assign n _ _ => some n
  | .advance _ => none

def Call.nodes (calls : List Call) : List Node := calls.filterMap Call.node?

@[simp] theorem Call.nodes_append (a b : List Call) : nodes (a ++ b) = nodes a ++ nodes b :=
  List.filterMap_append

namespace Traversal

variable {σ : Type}

def settleCalls (hooks : Hooks σ) (n : Node) (level left : Nat) (placed : Bool) (s : σ) :
    List Call :=
  let right := hooks.offset s (level + 1)
  if placed && left < right then [.assign n level ((left + (right - 1)) / 2)]
  else [.assign n level (hooks.offset s level), .advance level]

@[simp] theorem nodes_settleCalls (hooks : Hooks σ) (n : Node) (level left : Nat) (placed : Bool)
    (s : σ) : Call.nodes (settleCalls hooks n level left placed s) = [n] := by
  unfold settleCalls
  dsimp only
  split <;> rfl

theorem settle_recorded (hooks : Hooks σ) (n : Node) (level left : Nat) (placed : Bool) (s : σ)
    (past : List Call) :
    settle hooks.recorded n level left placed (s, past) =
      (settle hooks n level left placed s, past ++ settleCalls hooks n level left placed s) := by
  change (if placed && left < hooks.offset s (level + 1) then
    (hooks.assign s n level _, past ++ [_]) else (_, (past ++ [_]) ++ [_])) = _
  unfold settle settleCalls
  dsimp only
  split
  · rfl
  · rw [List.append_assoc]
    rfl

namespace Forest

def calls (hooks : Hooks σ) (level : Nat) : Forest → σ → List Call
  | nil, _ => []
  | cons n below beside, s =>
    let left := hooks.offset s (level + 1)
    let done := below.place hooks (level + 1) s
    below.calls hooks (level + 1) s ++ settleCalls hooks n level left (!below.isEmpty) done ++
      beside.calls hooks level (settle hooks n level left (!below.isEmpty) done)

theorem place_recorded (hooks : Hooks σ) (forest : Forest) (level : Nat) (s : σ)
    (past : List Call) :
    forest.place hooks.recorded level (s, past) =
      (forest.place hooks level s, past ++ forest.calls hooks level s) := by
  induction forest generalizing level s past with
  | nil => simp [calls]
  | cons n below beside ihBelow ihBeside =>
    have left : hooks.recorded.offset (s, past) (level + 1) = hooks.offset s (level + 1) := rfl
    rw [place_cons, ihBelow, left, settle_recorded, ihBeside, place_cons, calls]
    simp only [List.append_assoc]

@[simp] theorem nodes_calls (hooks : Hooks σ) (forest : Forest) (level : Nat) (s : σ) :
    Call.nodes (forest.calls hooks level s) = forest.nodes := by
  induction forest generalizing level s with
  | nil => rfl
  | cons n below beside ihBelow ihBeside => simp [calls, ihBelow, ihBeside]

end Forest

theorem placeRoots_recorded {h : Hierarchy} {roots visited after : NodeSet} {forest : Forest}
    (hooks : Hooks σ) (s : σ) (past : List Call)
    (grows : Grows h roots.toList visited forest after) :
    placeRoots h hooks.recorded roots ⟨visited, (s, past)⟩ =
      ⟨after, forest.place hooks (hooks.rootLevel s roots) s,
        past ++ forest.calls hooks (hooks.rootLevel s roots) s⟩ := by
  rw [placeRoots_of_grows _ _ grows]
  have level : hooks.recorded.rootLevel (s, past) roots = hooks.rootLevel s roots := rfl
  rw [level, Forest.place_recorded]

end Traversal

open Traversal

namespace Hooks

variable {σ τ : Type}

-- Related states offer the same offsets, whatever the hooks keep of the assignments.
structure Alike (a : Hooks σ) (b : Hooks τ) (R : σ → τ → Prop) : Prop where
  offset : ∀ s t, R s t → ∀ level, a.offset s level = b.offset t level
  advance : ∀ s t, R s t → ∀ level, R (a.advance s level) (b.advance t level)
  assignLeft : ∀ s t, R s t → ∀ n level offset, R (a.assign s n level offset) t
  assignRight : ∀ s t, R s t → ∀ n level offset, R s (b.assign t n level offset)

namespace Alike

variable {a : Hooks σ} {b : Hooks τ} {R : σ → τ → Prop} {s : σ} {t : τ}

theorem assign (alike : a.Alike b R) (related : R s t) (n : Node) (level x y : Nat) :
    R (a.assign s n level x) (b.assign t n level y) :=
  alike.assignRight _ _ (alike.assignLeft _ _ related n level x) n level y

theorem settle_agree (alike : a.Alike b R) (related : R s t) (n : Node) (level left : Nat)
    (placed : Bool) :
    R (settle a n level left placed s) (settle b n level left placed t) ∧
      settleCalls a n level left placed s = settleCalls b n level left placed t := by
  have below := alike.offset s t related (level + 1)
  have own := alike.offset s t related level
  unfold settle settleCalls
  dsimp only
  rw [below, own]
  split
  · exact ⟨alike.assign related n level _ _, rfl⟩
  · exact ⟨alike.advance _ _ (alike.assign related n level _ _) level, rfl⟩

-- Both sides walk over the same forest, and only what they are told could tell them apart.
theorem place_agree (alike : a.Alike b R) (forest : Forest) (level : Nat) (related : R s t) :
    R (forest.place a level s) (forest.place b level t) ∧
      forest.calls a level s = forest.calls b level t := by
  induction forest generalizing level s t with
  | nil => exact ⟨related, rfl⟩
  | cons n below beside ihBelow ihBeside =>
    have left := alike.offset s t related (level + 1)
    obtain ⟨done, callsBelow⟩ := ihBelow (level + 1) related
    obtain ⟨settled, callsHere⟩ :=
      alike.settle_agree done n level (b.offset t (level + 1)) (!below.isEmpty)
    obtain ⟨placed, callsBeside⟩ := ihBeside level settled
    rw [Forest.place_cons, Forest.place_cons, Forest.calls, Forest.calls, left]
    exact ⟨placed, by rw [callsBelow, callsHere, callsBeside]⟩

theorem placeRoots_agree (alike : a.Alike b R) (h : Hierarchy) (roots visited : NodeSet)
    (related : R s t) (level : a.rootLevel s roots = b.rootLevel t roots) :
    let left := placeRoots h a.recorded roots ⟨visited, (s, [])⟩
    let right := placeRoots h b.recorded roots ⟨visited, (t, [])⟩
    left.state.2 = right.state.2 ∧ left.visited = right.visited ∧ R left.state.1 right.state.1 := by
  obtain ⟨forest, after, grows⟩ := Grows.exists_forest h roots.toList visited
  obtain ⟨placed, calls⟩ := alike.place_agree forest (a.rootLevel s roots) related
  dsimp only
  rw [placeRoots_recorded a s [] grows, placeRoots_recorded b t [] grows, ← level]
  exact ⟨congrArg ([] ++ ·) calls, rfl, placed⟩

end Alike

-- A record is kept of the very run of the hooks.
theorem placeRoots_eq_recorded (hooks : Hooks σ) (h : Hierarchy) (roots visited : NodeSet) (s : σ)
    (past : List Call) :
    placeRoots h hooks roots ⟨visited, s⟩ =
      ⟨(placeRoots h hooks.recorded roots ⟨visited, (s, past)⟩).visited,
        (placeRoots h hooks.recorded roots ⟨visited, (s, past)⟩).state.1⟩ := by
  obtain ⟨forest, after, grows⟩ := Grows.exists_forest h roots.toList visited
  rw [placeRoots_recorded hooks s past grows, placeRoots_of_grows hooks s grows]

end Hooks

end DependencyAtlas
