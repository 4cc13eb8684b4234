import DependencyAtlas.Proofs.Path.Selection
import Mathlib.Data.Nat.Find
import Mathlib.Order.Bounds.Defs

set_option autoImplicit false

namespace DependencyAtlas

namespace Path.Operator

variable {g : Graph} (op : Operator g) (s : NodeSet)

-- What the next round starts from when `i` of them are over.
def handed : Nat → NodeSet
  | 0 => s
  | i + 1 => (op.apply (handed i)).nodes

def found : Nat → Outcome
  | 0 => ⟨∅, #[]⟩
  | i + 1 =>
    let now := op.apply (op.handed s i)
    ⟨(found i).nodes.join now.nodes, (found i).runs ++ now.runs⟩

theorem nodes_within (g : Graph) (s : NodeSet) : g.nodeSet.Within (s.join g.nodeSet) :=
  NodeSet.within_join_right s g.nodeSet

theorem handed_within (i : Nat) : (op.handed s i).Within (s.join g.nodeSet) := by
  induction i with
  | zero => exact NodeSet.within_join_left _ _
  | succ i ih => exact op.within ih (nodes_within g s)

theorem found_within (i : Nat) : (op.found s i).nodes.Within (s.join g.nodeSet) := by
  induction i with
  | zero =>
    intro id present
    simp [found] at present
  | succ i ih => exact ih.join (op.handed_within s (i + 1))

def resumed (i : Nat) : Rounds :=
  op.rounds true (s.join g.nodeSet) (op.handed s i) (op.found s i) i (nodes_within g s)
    (op.handed_within s i) (op.found_within s i)

def Idle (i : Nat) : Prop := (op.handed s (i + 1)).Within (op.found s i).nodes

variable {op s} {d i : Nat}

theorem resumed_of_idle (idle : op.Idle s i) : op.resumed s i = ⟨op.found s (i + 1), i + 1⟩ := by
  rw [resumed, rounds, if_neg]
  · rfl
  · exact fun goesOn => NodeSet.size_lt_size_join_iff.1 goesOn.2 idle

theorem resumed_of_new (new : ¬ op.Idle s i) : op.resumed s i = op.resumed s (i + 1) := by
  rw [resumed, rounds, if_pos ⟨rfl, NodeSet.size_lt_size_join_iff.2 new⟩]
  rfl

theorem resumed_eq (idle : op.Idle s d) (new : ∀ i < d, ¬ op.Idle s i) (le : i ≤ d) :
    op.resumed s i = ⟨op.found s (d + 1), d + 1⟩ := by
  induction le using Nat.decreasingInduction with
  | self => exact resumed_of_idle idle
  | of_succ i less ih => rw [resumed_of_new (new i less), ih]

theorem le_size_found (new : ∀ j < i, ¬ op.Idle s j) : i ≤ (op.found s i).nodes.size := by
  induction i with
  | zero => exact Nat.zero_le _
  | succ i ih =>
    have before := ih fun j less => new j (Nat.lt_succ_of_lt less)
    have grown := NodeSet.size_lt_size_join_iff.2 (new i i.lt_succ_self)
    exact Nat.lt_of_le_of_lt before grown

theorem exists_first_idle (op : Operator g) (s : NodeSet) :
    ∃ d, op.Idle s d ∧ ∀ i < d, ¬ op.Idle s i := by
  classical
  have ends : ∃ d, op.Idle s d := by
    by_contra never
    rw [not_exists] at never
    let many := (s.join g.nodeSet).size + 1
    have grown : many ≤ (op.found s many).nodes.size := le_size_found fun i _ => never i
    have bounded := (op.found_within s many).size_le
    omega
  exact ⟨Nat.find ends, Nat.find_spec ends, fun i => Nat.find_min ends⟩

end Path.Operator

namespace Graph

variable (g : Graph) (rule : EdgeRule) (s : NodeSet)

def ReachedIn (count : Nat) (n : Node) : Prop := ∃ a ∈ s, g.LeadsIn rule count a n

def ReachedWithin (count : Nat) (n : Node) : Prop :=
  ∃ k, 1 ≤ k ∧ k ≤ count ∧ g.ReachedIn rule s k n

variable {g rule s} {count d : Nat} {n : Node}

theorem LeadsIn.pos {a b : Node} (walk : g.LeadsIn rule count a b) : 1 ≤ count := by
  cases walk <;> omega

theorem reachedIn_one : g.ReachedIn rule s 1 n ↔ ∃ a ∈ s, g.Leads rule a n := by
  constructor
  · intro reached
    obtain ⟨a, given, walk⟩ := reached
    cases walk with
    | one leads => exact ⟨a, given, leads⟩
    | more before _ => exact absurd before.pos (by decide)
  · intro reached
    obtain ⟨a, given, leads⟩ := reached
    exact ⟨a, given, .one leads⟩

theorem reachedIn_succ (pos : 1 ≤ count) :
    g.ReachedIn rule s (count + 1) n ↔ ∃ m, g.ReachedIn rule s count m ∧ g.Leads rule m n := by
  constructor
  · intro reached
    obtain ⟨a, given, walk⟩ := reached
    cases walk with
    | one _ => exact absurd pos (by decide)
    | more before leads => exact ⟨_, ⟨a, given, before⟩, leads⟩
  · intro reached
    obtain ⟨m, ⟨a, given, before⟩, leads⟩ := reached
    exact ⟨a, given, .more before leads⟩

theorem reachedWithin_succ :
    g.ReachedWithin rule s (count + 1) n ↔
      g.ReachedWithin rule s count n ∨ g.ReachedIn rule s (count + 1) n := by
  constructor
  · intro reached
    obtain ⟨k, pos, le, reached⟩ := reached
    rcases Nat.le_succ_iff.1 le with before | rfl
    · exact .inl ⟨k, pos, before, reached⟩
    · exact .inr reached
  · intro reached
    rcases reached with ⟨k, pos, le, before⟩ | now
    · exact ⟨k, pos, Nat.le_succ_of_le le, before⟩
    · exact ⟨count + 1, Nat.le_add_left .., le_rfl, now⟩

-- Where one more step leads to nothing new, longer walks do not either.
theorem ReachedIn.within (closed : ∀ m, g.ReachedIn rule s (d + 1) m → g.ReachedWithin rule s d m)
    (reached : g.ReachedIn rule s count n) : g.ReachedWithin rule s d n := by
  have settle {m : Node} (soon : g.ReachedWithin rule s (d + 1) m) : g.ReachedWithin rule s d m :=
    (reachedWithin_succ.1 soon).elim id (closed m)
  obtain ⟨a, given, walk⟩ := reached
  induction walk with
  | one leads => exact settle ⟨1, le_rfl, Nat.le_add_left .., _, given, .one leads⟩
  | more _ leads ih =>
    obtain ⟨k, pos, le, before⟩ := ih given
    have next := (reachedIn_succ pos).2 ⟨_, before, leads⟩
    exact settle ⟨k + 1, Nat.le_add_left .., Nat.succ_le_succ le, next⟩

theorem owns_related : g.Owns (g.related rule s) := by
  intro n hn
  obtain ⟨a, -, leads⟩ := mem_related_iff.1 hn
  exact leads.ends_mem.2

end Graph

namespace Path

open DependencyAtlas.Graph Operator

variable {g : Graph} {rule : EdgeRule} {s : NodeSet} {d i : Nat}

theorem owns_handed (i : Nat) : g.Owns ((follow rule : Operator g).handed s (i + 1)) := owns_related

theorem owns_found (i : Nat) : g.Owns ((follow rule : Operator g).found s i).nodes := by
  induction i with
  | zero => exact owns_empty
  | succ i ih => exact ih.join (owns_handed i)

theorem mem_handed (i : Nat) (n : Node) :
    n ∈ ((follow rule : Operator g).handed s (i + 1)).toList ↔ g.ReachedIn rule s (i + 1) n := by
  induction i generalizing n with
  | zero => exact mem_related_iff.trans reachedIn_one.symm
  | succ i ih =>
    rw [reachedIn_succ (Nat.le_add_left 1 i)]
    simp only [← ih]
    exact mem_related (owns_handed i) n

theorem mem_found (i : Nat) (n : Node) :
    n ∈ ((follow rule : Operator g).found s i).nodes.toList ↔ g.ReachedWithin rule s i n := by
  induction i with
  | zero =>
    constructor
    · intro listed
      simp [found, NodeSet.mem_toList] at listed
    · intro reached
      obtain ⟨k, pos, le, -⟩ := reached
      omega
  | succ i ih =>
    rw [reachedWithin_succ, ← ih, ← mem_handed]
    exact (owns_found i).mem_join (owns_handed i) n

theorem idle_iff :
    (follow rule : Operator g).Idle s i ↔
      ∀ n, g.ReachedIn rule s (i + 1) n → g.ReachedWithin rule s i n := by
  rw [Idle, (owns_handed i).within_iff (owns_found i)]
  simp only [List.subset_def, mem_handed, mem_found]

theorem mem_found_of_idle (idle : (follow rule : Operator g).Idle s d) (n : Node) :
    n ∈ ((follow rule : Operator g).found s (d + 1)).nodes.toList ↔
      ∃ k, 1 ≤ k ∧ g.ReachedIn rule s k n := by
  rw [mem_found]
  constructor
  · intro reached
    obtain ⟨k, pos, -, reached⟩ := reached
    exact ⟨k, pos, reached⟩
  · intro reached
    obtain ⟨_, -, reached⟩ := reached
    exact reachedWithin_succ.2 (.inl (reached.within (idle_iff.1 idle)))

-- The round before the idle one has found a node that no shorter walk leads to.
theorem exists_farthest (pos : 1 ≤ d) (new : ∀ i < d, ¬ (follow rule : Operator g).Idle s i) :
    ∃ n, IsLeast {k | 1 ≤ k ∧ g.ReachedIn rule s k n} d := by
  obtain ⟨e, rfl⟩ := Nat.exists_eq_add_of_le' pos
  have fresh := new e e.lt_succ_self
  rw [idle_iff] at fresh
  push Not at fresh
  obtain ⟨n, reached, unknown⟩ := fresh
  refine ⟨n, ⟨pos, reached⟩, fun k earlier => ?_⟩
  by_contra less
  exact unknown ⟨k, earlier.1, by omega, earlier.2⟩

theorem isGreatest_of_first_idle (idle : (follow rule : Operator g).Idle s d) (pos : 1 ≤ d)
    (new : ∀ i < d, ¬ (follow rule : Operator g).Idle s i) :
    IsGreatest {k | ∃ n ∈ ((follow rule : Operator g).found s (d + 1)).nodes.toList,
      IsLeast {k | 1 ≤ k ∧ g.ReachedIn rule s k n} k} d := by
  constructor
  · obtain ⟨n, least⟩ := exists_farthest pos new
    exact ⟨n, (mem_found_of_idle idle n).2 ⟨d, least.1⟩, least⟩
  · intro k shortest
    obtain ⟨n, -, least⟩ := shortest
    obtain ⟨j, pos, le, reached⟩ := least.1.2.within (idle_iff.1 idle)
    exact Nat.le_trans (least.2 ⟨pos, reached⟩) le

theorem found_eq_nil_iff (idle : (follow rule : Operator g).Idle s d)
    (new : ∀ i < d, ¬ (follow rule : Operator g).Idle s i) :
    ((follow rule : Operator g).found s (d + 1)).nodes.toList = [] ↔ d = 0 := by
  rw [List.eq_nil_iff_forall_not_mem]
  constructor
  · intro nothing
    by_contra several
    obtain ⟨n, least⟩ := exists_farthest (Nat.one_le_iff_ne_zero.2 several) new
    exact nothing n ((mem_found_of_idle idle n).2 ⟨d, least.1⟩)
  · rintro rfl n listed
    obtain ⟨_, -, reached⟩ := (mem_found_of_idle idle n).1 listed
    obtain ⟨k, pos, le, -⟩ := reached.within (idle_iff.1 idle)
    omega

theorem runs_found (i : Nat) : ((follow rule : Operator g).found s i).runs = #[] := by
  induction i with
  | zero => rfl
  | succ i ih =>
    rw [found, ih]
    rfl

theorem apply_repeated_edges (name : String) (cumulative : Bool)
    (ran : (follow rule : Operator g).run true s =
      ⟨(follow rule : Operator g).found s (d + 1), d + 1⟩) :
    let nodes := ((follow rule : Operator g).found s (d + 1)).nodes
    ((Term.mk (.edges name rule) true cumulative).operator g).apply s =
      ⟨nodes, #[⟨name, d + 1, nodes.size⟩]⟩ := by
  rw [Term.operator, Selector.operator, Selector.describe]
  simp only [Operator.term, ran, runs_found]
  rfl

-- One round more than the longest of the shortest walks has steps: the last finds nothing new.
theorem rounds_of_repeated_edges (g : Graph) (rule : EdgeRule) (name : String) (cumulative : Bool)
    (input : NodeSet) :
    let op : Operator g := .follow rule
    let out := ((Term.mk (.edges name rule) true cumulative).operator g).apply input
    ∃ longest,
      out.runs = #[⟨name, longest + 1, out.nodes.size⟩] ∧
      (out.nodes.toList = [] → longest = 0) ∧
      (out.nodes.toList ≠ [] → IsGreatest
        {k | ∃ n ∈ out.nodes.toList, IsLeast {k | 1 ≤ k ∧ g.ReachedIn rule input k n} k} longest) ∧
      (∀ n, n ∈ out.nodes.toList ↔ ∃ k, 1 ≤ k ∧ g.ReachedIn rule input k n) ∧
      out.nodes = (op.found input (longest + 1)).nodes ∧
      (∀ i ≤ longest, op.resumed input i = op.run true input) ∧
      ∀ i n, n ∈ (op.found input i).nodes.toList ↔
        ∃ k, 1 ≤ k ∧ k ≤ i ∧ g.ReachedIn rule input k n := by
  intro op out
  obtain ⟨d, idle, new⟩ := op.exists_first_idle input
  have resumed (i : Nat) (le : i ≤ d) : op.resumed input i = ⟨op.found input (d + 1), d + 1⟩ :=
    resumed_eq idle new le
  have ran : op.run true input = ⟨op.found input (d + 1), d + 1⟩ := resumed 0 d.zero_le
  let nodes := (op.found input (d + 1)).nodes
  have answer : out = ⟨nodes, #[⟨name, d + 1, nodes.size⟩]⟩ := apply_repeated_edges name cumulative ran
  rw [answer]
  refine ⟨d, rfl, (found_eq_nil_iff idle new).1, fun something => ?_, mem_found_of_idle idle, rfl,
    fun i le => ?_, mem_found⟩
  · have pos : 1 ≤ d := Nat.one_le_iff_ne_zero.2 (mt (found_eq_nil_iff idle new).2 something)
    exact isGreatest_of_first_idle idle pos new
  · rw [resumed i le, ran]

end Path

end DependencyAtlas
