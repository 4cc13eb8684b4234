import DependencyAtlas.Relation
import Std.Data.ExtTreeMap

set_option autoImplicit false

namespace DependencyAtlas

inductive ModelError where
  | danglingEdge (head tail relation missing : String)
  | conflictingNode (id : String)
  | conflictingRelation (name existing : String)
  | unknownRelation (name : String)
  | unknownRelationSet (name : String)
  | unknownNodeKind (name : String)
deriving DecidableEq, Repr

def ModelError.message : ModelError → String
  | danglingEdge head tail relation missing =>
    s!"Dangling edge {head} -[{relation}]-> {tail}: node '{missing}' is not in the graph"
  | conflictingNode id => s!"Conflicting definitions for node '{id}'"
  | conflictingRelation name existing =>
    s!"Relation '{name}' already registered with reverse name '{existing}'"
  | unknownRelation name => s!"Unknown relation: {name}"
  | unknownRelationSet name => s!"Unknown relation set: {name}"
  | unknownNodeKind name => s!"Unknown node kind: {name}"

inductive Level where
  | debug | info | warn
deriving DecidableEq, Repr

namespace Level

def name : Level → String
  | debug => "DEBUG"
  | info => "INFO"
  | warn => "WARN"

def rank : Level → Nat
  | debug => 0
  | info => 1
  | warn => 2

end Level

structure Event where
  level : Level
  text : String
deriving DecidableEq, Repr

def Event.line (e : Event) : String := s!"{e.level.name} {e.text}"

structure Registry where
  relations : Std.ExtTreeMap String Relation
  sets : Std.ExtTreeMap String RelationSet

namespace Registry

def empty : Registry := ⟨∅, ∅⟩

def relation? (reg : Registry) (name : String) : Option Relation := reg.relations[name]?

def set? (reg : Registry) (name : String) : Option RelationSet := reg.sets[name]?

-- A name keeps the relation that it was given first.
def register (reg : Registry) (r : Relation) : Except ModelError Registry :=
  match reg.relation? r.forward with
  | some known =>
    if known.reverse = r.reverse then .ok reg
    else .error (.conflictingRelation r.forward known.reverse)
  | none => .ok { reg with relations := reg.relations.insert r.forward r }

def registerEvents (reg : Registry) (r : Relation) : List Event :=
  match reg.relation? r.forward with
  | some _ => []
  | none => [⟨.debug, s!"Registered relation '{r.forward}'"⟩]

def registerSet (reg : Registry) (name : String) (set : RelationSet) : Registry :=
  { reg with sets := reg.sets.insert name set }

def require (reg : Registry) (name : String) : Except ModelError Relation :=
  match reg.relation? name with
  | some r => .ok r
  | none => .error (.unknownRelation name)

def requireSet (reg : Registry) (name : String) : Except ModelError RelationSet :=
  match reg.set? name with
  | some set => .ok set
  | none => .error (.unknownRelationSet name)

def relationSet (reg : Registry) (names : List String) : Except ModelError RelationSet := do
  return .of (← names.mapM reg.require)

-- Relations are resolved before sets.
def resolve (reg : Registry) (names setNames : List String) : Except ModelError RelationSet := do
  let relations ← reg.relationSet names
  setNames.foldlM (fun found name => return found.union (← reg.requireSet name)) relations

def relationList (reg : Registry) : List Relation := reg.relations.values

def setNames (reg : Registry) : List String := reg.sets.keys

def builtinRelations : List Relation :=
  [⟨"contains-dir", "in-dir"⟩,
   ⟨"contains-file", "in-file"⟩,
   ⟨"class", "class of"⟩,
   ⟨"extends", "extended by"⟩,
   ⟨"implements", "implemented by"⟩,
   ⟨"interface-extends", "extended by interface"⟩,
   ⟨"member-type", "member type of"⟩,
   ⟨"method", "method of"⟩,
   ⟨"field", "field of"⟩,
   ⟨"call", "called by"⟩,
   ⟨"static-call", "statically called by"⟩,
   ⟨"type-use", "used as type by"⟩,
   ⟨"field-access", "accessed by"⟩,
   ⟨"annotation", "annotates"⟩,
   ⟨"dependency", "dependency of"⟩,
   ⟨"module", "module of"⟩,
   ⟨"parent", "child of"⟩,
   ⟨"property", "property of"⟩]

def builtinSets : List (String × RelationSet) :=
  [("containers", named
     ["contains-dir", "contains-file", "class", "member-type", "method", "field", "module"]),
   ("uses", named ["call", "static-call", "type-use", "field-access", "annotation"]),
   ("inheritance", named ["extends", "implements", "interface-extends"]),
   ("maven-deps", named ["dependency", "parent", "module"]),
   ("all", .all),
   ("none", .empty)]
where
  named (names : List String) : RelationSet :=
    .of (builtinRelations.filter fun r => names.contains r.forward)

def builtin : Registry where
  relations := Std.ExtTreeMap.ofList (builtinRelations.map fun r => (r.forward, r))
  sets := Std.ExtTreeMap.ofList builtinSets

end Registry

end DependencyAtlas
