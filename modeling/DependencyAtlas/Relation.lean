import DependencyAtlas.Node

set_option autoImplicit false

namespace DependencyAtlas

structure Relation where
  forward : String
  reverse : String
deriving DecidableEq, Repr, Inhabited

namespace Relation

instance : Ord Relation := ⟨compareLex (compareOn forward) (compareOn reverse)⟩

instance : Std.TransOrd Relation :=
  inferInstanceAs (Std.TransCmp (compareLex (compareOn forward) (compareOn reverse)))

instance : Std.LawfulEqOrd Relation where
  eq_of_compare {a b} h := by
    have := compareLex_eq_eq.1 h
    simp only [compareOn, Std.LawfulEqCmp.compare_eq_iff_eq] at this
    cases a; cases b; simp_all

end Relation

-- Enumerations are not empty, so that no set has two forms.
inductive RelationSet where
  | empty
  | all
  | enumerated (members : Std.ExtTreeSet Relation) (nonempty : members ≠ ∅)
deriving DecidableEq

namespace RelationSet

def ofMembers (members : Std.ExtTreeSet Relation) : RelationSet :=
  if h : members = ∅ then empty else enumerated members h

def of (relations : List Relation) : RelationSet :=
  ofMembers (Std.ExtTreeSet.ofList relations)

def single (relation : Relation) : RelationSet := of [relation]

def contains : RelationSet → Relation → Bool
  | empty, _ => false
  | all, _ => true
  | enumerated members _, r => members.contains r

def isEmpty : RelationSet → Bool
  | empty => true
  | _ => false

def union : RelationSet → RelationSet → RelationSet
  | all, _ => all
  | _, all => all
  | empty, b => b
  | a, empty => a
  | enumerated a _, enumerated b _ => ofMembers (a ∪ b)

def inter : RelationSet → RelationSet → RelationSet
  | empty, _ => empty
  | _, empty => empty
  | all, b => b
  | a, all => a
  | enumerated a _, enumerated b _ => ofMembers (a ∩ b)

@[simp] theorem contains_ofMembers (members : Std.ExtTreeSet Relation) (r : Relation) :
    (ofMembers members).contains r = members.contains r := by
  unfold ofMembers
  split <;> simp_all [contains]

@[simp] theorem contains_of (relations : List Relation) (r : Relation) :
    (of relations).contains r = relations.contains r := by
  simp [of]

@[simp] theorem contains_single (a r : Relation) : (single a).contains r = (r == a) := by
  rw [single, contains_of, List.contains_cons, List.contains_nil, Bool.or_false]

@[simp] theorem contains_union (a b : RelationSet) (r : Relation) :
    (a.union b).contains r = (a.contains r || b.contains r) := by
  cases a <;> cases b <;> simp only [union, contains_ofMembers] <;> simp [contains]

@[simp] theorem contains_inter (a b : RelationSet) (r : Relation) :
    (a.inter b).contains r = (a.contains r && b.contains r) := by
  cases a <;> cases b <;> simp only [inter, contains_ofMembers] <;> simp [contains]

end RelationSet

structure Edge where
  head : Node
  tail : Node
  relation : Relation
deriving DecidableEq, Repr

namespace Edge

def same (a b : Edge) : Bool :=
  a.head.id == b.head.id && a.tail.id == b.tail.id && a.relation == b.relation

def describe (e : Edge) : String := s!"{e.head.id} -[{e.relation.forward}]-> {e.tail.id}"

end Edge

structure EdgeRule where
  forward : RelationSet
  backward : RelationSet
deriving DecidableEq

inductive Heading where
  | neither | forward | backward | both
deriving DecidableEq, Repr

def Heading.name : Heading → String
  | neither => "neither"
  | forward => "forward"
  | backward => "backward"
  | both => "both"

def Heading.isForward : Heading → Bool
  | forward | both => true
  | _ => false

def Heading.isBackward : Heading → Bool
  | backward | both => true
  | _ => false

namespace EdgeRule

def nothing : EdgeRule := ⟨.empty, .empty⟩

def along (relations : RelationSet) : EdgeRule := ⟨relations, .empty⟩

def against (relations : RelationSet) : EdgeRule := ⟨.empty, relations⟩

def both (relations : RelationSet) : EdgeRule := ⟨relations, relations⟩

def ofFlags (flags : List (Relation × Bool × Bool)) : EdgeRule :=
  ⟨.of ((flags.filter (·.2.1)).map (·.1)), .of ((flags.filter (·.2.2)).map (·.1))⟩

def followsForward (rule : EdgeRule) (r : Relation) : Bool := rule.forward.contains r

def followsBackward (rule : EdgeRule) (r : Relation) : Bool := rule.backward.contains r

def inverted (rule : EdgeRule) : EdgeRule := ⟨rule.backward, rule.forward⟩

def forwardWithin (rule : EdgeRule) (domain : List Relation) : RelationSet :=
  .of (domain.filter rule.followsForward)

def backwardWithin (rule : EdgeRule) (domain : List Relation) : RelationSet :=
  .of (domain.filter rule.followsBackward)

def within (rule : EdgeRule) (domain : List Relation) : EdgeRule :=
  ⟨rule.forwardWithin domain, rule.backwardWithin domain⟩

def heading (rule : EdgeRule) (r : Relation) : Heading :=
  match rule.followsForward r, rule.followsBackward r with
  | true, true => .both
  | true, false => .forward
  | false, true => .backward
  | false, false => .neither

@[simp] theorem isForward_heading (rule : EdgeRule) (r : Relation) :
    (rule.heading r).isForward = rule.followsForward r := by
  unfold heading
  cases rule.followsForward r <;> cases rule.followsBackward r <;> rfl

@[simp] theorem isBackward_heading (rule : EdgeRule) (r : Relation) :
    (rule.heading r).isBackward = rule.followsBackward r := by
  unfold heading
  cases rule.followsForward r <;> cases rule.followsBackward r <;> rfl

@[simp] theorem inverted_inverted (rule : EdgeRule) : rule.inverted.inverted = rule := rfl

end EdgeRule

end DependencyAtlas
