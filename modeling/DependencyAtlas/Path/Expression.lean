import DependencyAtlas.Relation

set_option autoImplicit false

namespace DependencyAtlas.Path

-- Nodes of unknown kind are never let through.
structure KindFilter where
  kinds : List NodeKind
deriving DecidableEq, Repr

namespace KindFilter

def of (kinds : List NodeKind) : KindFilter :=
  ⟨NodeKind.all.filter fun kind => kind ≠ .unknown && kinds.contains kind⟩

def accepts (f : KindFilter) (kind : NodeKind) : Bool := f.kinds.contains kind

theorem accepts_of (kinds : List NodeKind) (kind : NodeKind) :
    (of kinds).accepts kind = (kind ≠ .unknown && kinds.contains kind) := by
  rw [Bool.eq_iff_iff]
  simp [of, accepts, NodeKind.mem_all]

def describe (f : KindFilter) : String :=
  let names := ",".intercalate (f.kinds.map (·.name))
  s!"kinds[{names}]"

end KindFilter

-- A recursive term is applied again to its own result until nothing new appears; a cumulative one
-- adds its result to what it is given.
mutual

inductive Selector where
  | edges (name : String) (rule : EdgeRule)
  | kinds (filter : KindFilter)
  | path (expression : Expression)

inductive Term where
  | mk (selector : Selector) (recursive : Bool) (cumulative : Bool)

inductive Expression where
  | mk (name : Option String) (terms : List Term)

end

namespace Term

def selector : Term → Selector
  | mk s _ _ => s

def recursive : Term → Bool
  | mk _ r _ => r

def cumulative : Term → Bool
  | mk _ _ c => c

def marks (t : Term) : String :=
  (if t.recursive then "*" else "") ++ (if t.cumulative then "+" else "")

end Term

namespace Expression

def name : Expression → Option String
  | mk n _ => n

def terms : Expression → List Term
  | mk _ ts => ts

end Expression

mutual

def Selector.describe : Selector → String
  | .edges name _ => name
  | .kinds f => f.describe
  | .path e => e.describe

def Term.describe : Term → String
  | .mk s r c => s.describe ++ (Term.mk s r c).marks

def Expression.describe : Expression → String
  | .mk (some name) _ => name
  | .mk none terms => " / ".intercalate (describeTerms terms)

def describeTerms : List Term → List String
  | [] => []
  | t :: rest => t.describe :: describeTerms rest

end

end DependencyAtlas.Path
