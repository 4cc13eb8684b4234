import DependencyAtlas.Command.Arguments
import DependencyAtlas.Document.Record

set_option autoImplicit false

namespace DependencyAtlas.Command

structure HierarchyChoice where
  relations : List String := []
  sets : List String := []
  reverse : Bool := false
deriving DecidableEq, Repr

inductive ChoiceError where
  | nothing
  | model (error : ModelError)
deriving DecidableEq, Repr

def ChoiceError.message : ChoiceError → String
  | nothing => "Hierarchy needs at least one --relation or --set"
  | model e => e.message

def HierarchyChoice.rule (c : HierarchyChoice) (reg : Registry) : Except ChoiceError EdgeRule := do
  if c.relations = [] ∧ c.sets = [] then throw .nothing
  let found ← (reg.resolve c.relations c.sets).mapError .model
  return if c.reverse then .against found else .along found

structure Viewport where
  width : Float
  height : Float
deriving Repr

namespace Viewport

def isBlank (c : Char) : Bool :=
  let n := c.toNat
  (9 ≤ n && n ≤ 13) || n = 32 || n = 0x85 || n = 0xa0 || n = 0x1680 ||
    (0x2000 ≤ n && n ≤ 0x200a) || n = 0x2028 || n = 0x2029 || n = 0x202f || n = 0x205f || n = 0x3000

def side? (cs : List Char) : Option Float := do
  let inner := ((cs.dropWhile isBlank).reverse.dropWhile isBlank).reverse
  let x ← Decimal.readFloat? (String.ofList inner)
  if x.isFinite && 0.0 < x then some x else none

def parse? (text : String) : Option Viewport :=
  match text.toList.span fun c => c ≠ 'x' && c ≠ 'X' with
  | (_, []) => none
  | (width, _ :: height) => do return ⟨← side? width, ← side? height⟩

end Viewport

structure LayoutChoice where
  config : Option String := none
  kind : Option Layout.Kind := none
  viewport : Option Viewport := none
  margin : Float := 20.0

inductive Task where
  | query (graph path : String) (starts : List String)
  | layout (graph : String) (hierarchy : HierarchyChoice) (choice : LayoutChoice)
  | roots (graph : String) (hierarchy : HierarchyChoice)
  | relations

def Task.files : Task → List String
  | query graph path _ => [graph, path]
  | layout graph _ choice => graph :: choice.config.toList
  | roots graph _ => [graph]
  | relations => []

structure Invocation where
  task : Task
  threshold : Level := .info
  pretty : Bool := false

namespace Given

def readAs {α : Type} (g : Given) (s : Setting) (read? : String → Option α) :
    Except UsageError (Option α) :=
  match g.one? s with
  | none => .ok none
  | some text =>
    match read? text with
    | some a => .ok (some a)
    | none => .error (.invalidValue s.name text)

def file? (g : Given) (s : Setting) : Except UsageError (Option String) :=
  g.readAs s fun text => if text = "" then none else some text

def require {α : Type} (s : Setting) : Option α → Except UsageError α
  | some a => .ok a
  | none => .error (.missing s.name)

def hierarchy (g : Given) : HierarchyChoice := ⟨g.all .relation, g.all .set, g.has .reverse⟩

def task (g : Given) : Action → Except UsageError Task
  | .query => do
    let graph ← require .graph (← g.file? .graph)
    let path ← require .path (← g.file? .path)
    -- given at least once
    let _ ← require .start (g.one? .start)
    return .query graph path (g.all .start)
  | .layout => do
    let graph ← require .graph (← g.file? .graph)
    let config ← g.file? .config
    let kind ← g.readAs .kind Layout.Kind.ofExactName?
    let viewport ← g.readAs .fit Viewport.parse?
    let margin ← g.readAs .margin Decimal.readFloat?
    return .layout graph g.hierarchy ⟨config, kind, viewport, margin.getD 20.0⟩
  | .roots => do return .roots (← require .graph (← g.file? .graph)) g.hierarchy
  | .relations => .ok .relations

end Given

-- Being quiet prevails over being verbose.
def threshold (quiet verbose : Bool) : Level :=
  if quiet then .warn else if verbose then .debug else .info

-- The flags for the whole command count wherever they stand.
def Invocation.parse (args : List String) : Except Stop Invocation := do
  let (action, before, behind) ← Given.readAll {} args
  let task ← (behind.task action).mapError .usage
  let given (f : Flag) : Bool := before.has f || behind.has f
  return ⟨task, Command.threshold (given .quiet) (given .verbose), given .pretty⟩

end DependencyAtlas.Command
