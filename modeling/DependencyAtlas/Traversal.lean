import DependencyAtlas.Hierarchy

set_option autoImplicit false

namespace DependencyAtlas

-- Levels and offsets are naturals; `Proofs.Layout.Limits` says how large they get in a run.
structure Hooks (σ : Type) where
  offset : σ → Nat → Nat
  advance : σ → Nat → σ
  assign : σ → Node → Nat → Nat → σ
  rootLevel : σ → NodeSet → Nat := fun _ _ => 0

namespace Traversal

structure Progress (σ : Type) where
  visited : NodeSet
  state : σ

def orderedChildren (h : Hierarchy) (n : Node) (visited : NodeSet) : List Node :=
  let fresh := (h.children n).toList.filter fun c => !visited.contains c
  fresh.filter h.isLeaf ++ fresh.filter fun c => !h.isLeaf c

theorem mem_orderedChildren {h : Hierarchy} {n c : Node} {visited : NodeSet} :
    c ∈ orderedChildren h n visited ↔ c ∈ (h.children n).toList ∧ c ∉ visited := by
  simp only [orderedChildren, List.mem_append, List.mem_filter, Bool.not_eq_true',
    ← Bool.not_eq_true, Std.ExtTreeSet.contains_iff_mem]
  cases h.isLeaf c <;> simp

theorem mem_nodes_of_mem_orderedChildren {h : Hierarchy} {n c : Node} {visited : NodeSet}
    (hc : c ∈ orderedChildren h n visited) : c ∈ h.nodes := by
  have child := NodeSet.mem_toList.1 (mem_orderedChildren.1 hc).1
  rw [Hierarchy.children] at child
  exact NodeSet.mem_iff.2 (h.children_within n.id c.id (by rw [child, Option.isSome_some]))

-- What waits for its children is a stack of frames, so that the depth of a hierarchy is no limit.
structure Frame (h : Hierarchy) where
  node : Node
  level : Nat
  pending : List Node
  pending_mem : ∀ c ∈ pending, c ∈ h.nodes
  left : Nat
  placed : Bool

variable {σ : Type}

def Frame.enter (h : Hierarchy) (hooks : Hooks σ) (n : Node) (level : Nat) (p : Progress σ) :
    Frame h where
  node := n
  level := level
  pending := orderedChildren h n p.visited
  pending_mem _ hc := mem_nodes_of_mem_orderedChildren hc
  left := hooks.offset p.state (level + 1)
  placed := false

-- The middle of the offsets that were used up below, or else the next one of the level.
def settle (hooks : Hooks σ) (n : Node) (level left : Nat) (placed : Bool) (s : σ) : σ :=
  let right := hooks.offset s (level + 1)
  if placed && left < right then hooks.assign s n level ((left + (right - 1)) / 2)
  else hooks.advance (hooks.assign s n level (hooks.offset s level)) level

def unvisited (h : Hierarchy) (visited : NodeSet) : Nat := (h.nodes.minus visited).size

theorem unvisited_add_lt {h : Hierarchy} {visited : NodeSet} {n : Node} (hn : n ∈ h.nodes)
    (hv : n ∉ visited) : unvisited h (visited.add n) < unvisited h visited :=
  NodeSet.size_minus_add_lt hn hv

def work {h : Hierarchy} : List (Frame h) → Nat
  | [] => 0
  | f :: rest => f.pending.length + 1 + work rest

def run (h : Hierarchy) (hooks : Hooks σ) (stack : List (Frame h)) (p : Progress σ) : Progress σ :=
  match stack with
  | [] => p
  | f :: rest =>
    match eq : f.pending with
    | [] => run h hooks rest { p with state := settle hooks f.node f.level f.left f.placed p.state }
    | c :: cs =>
      have cs_mem : ∀ c ∈ cs, c ∈ h.nodes := fun d hd =>
        f.pending_mem d (eq ▸ List.mem_cons_of_mem c hd)
      if hv : c ∈ p.visited then
        -- another parent was faster
        run h hooks ({ f with pending := cs, pending_mem := cs_mem } :: rest) p
      else
        have hc : c ∈ h.nodes := f.pending_mem c (eq ▸ List.mem_cons_self)
        let p := { p with visited := p.visited.add c }
        run h hooks (.enter h hooks c (f.level + 1) p ::
          { f with pending := cs, pending_mem := cs_mem, placed := true } :: rest) p
termination_by (unvisited h p.visited, work stack)
decreasing_by
  -- a frame less, a pending child less, an unvisited node less
  · exact .right _ (by simp [work, eq])
  · exact .right _ (by simp [work, eq])
  · exact .left _ _ (unvisited_add_lt hc hv)

def placeSubtree (h : Hierarchy) (hooks : Hooks σ) (level : Nat) (p : Progress σ) (root : Node) :
    Progress σ :=
  if p.visited.contains root then p
  else
    let p := { p with visited := p.visited.add root }
    run h hooks [.enter h hooks root level p] p

def placeRoots (h : Hierarchy) (hooks : Hooks σ) (roots : NodeSet) (p : Progress σ) : Progress σ :=
  roots.toList.foldl (placeSubtree h hooks (hooks.rootLevel p.state roots)) p

end Traversal

inductive Call where
  | assign (node : Node) (level offset : Nat)
  | advance (level : Nat)
deriving DecidableEq, Repr

namespace Hooks

variable {σ : Type}

def recorded (hooks : Hooks σ) : Hooks (σ × List Call) where
  offset s level := hooks.offset s.1 level
  advance s level := (hooks.advance s.1 level, s.2 ++ [.advance level])
  assign s n level offset := (hooks.assign s.1 n level offset, s.2 ++ [.assign n level offset])
  rootLevel s roots := hooks.rootLevel s.1 roots

end Hooks

end DependencyAtlas
