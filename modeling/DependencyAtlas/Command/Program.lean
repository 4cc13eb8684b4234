import DependencyAtlas.Command.Invocation
import DependencyAtlas.Document.File
import DependencyAtlas.Path.Evaluation

set_option autoImplicit false

namespace DependencyAtlas.Command

structure Failure where
  message : String
  causes : List String := []
deriving DecidableEq, Repr

-- Events before a failure count.
abbrev Work := ExceptT Failure (StateM (Array Event))

namespace Work

def report (events : List Event) : Work Unit := modify (· ++ events.toArray)

def orFail {ε α : Type} (failure : ε → Failure) : Except ε α → Work α
  | .ok a => pure a
  | .error e => throw (failure e)

def outcome {α : Type} (w : Work α) : Except Failure α × List Event :=
  let (result, events) := (ExceptT.run w).run #[]
  (result, events.toList)

end Work

open Work

abbrev Files := String → Document.Content

variable (files : Files)

def loadGraph (file : String) : Work (Registry × Graph) := do
  let text ← orFail (fun e => ⟨s!"Failed to read graph document {file}", [e.message]⟩)
    (files file).text
  let document ← match Document.GraphDocument.parse? text with
    | some document => pure document
    | none => throw ⟨s!"Invalid graph document {file}", []⟩
  let loading := document.load .builtin
  report (document.loadEvents .builtin)
  let graph ← orFail (fun e => ⟨e.message, e.causes⟩) loading.result
  return (loading.registry, graph)

def hierarchyRule (choice : HierarchyChoice) (reg : Registry) : Work EdgeRule :=
  orFail (fun e => ⟨e.message, []⟩) (choice.rule reg)

def startNodes (g : Graph) (ids : List String) : Except Failure NodeSet :=
  ids.foldlM (fun found id =>
    match g.node? id with
    | some n => .ok (found.add n)
    | none => .error ⟨s!"Start node '{id}' is not in the graph", []⟩) ∅

def runQuery (graph path : String) (starts : List String) : Work Json := do
  let (reg, g) ← loadGraph files graph
  let draft ← orFail (fun e => ⟨s!"Failed to load path expression {path}", e.chain⟩)
    (Path.Draft.load path (files path))
  let expression ← orFail (fun e => ⟨e.message, []⟩) (draft.resolve reg)
  report [Path.Draft.resolvedEvent expression]
  let input ← orFail id (startNodes g starts)
  let found := (expression.operator g).apply input
  report (found.runs.toList.map (·.event))
  let (name, matched, total) := (expression.describe, found.nodes.size, g.nodeCount)
  report [⟨.info, s!"'{name}' matched {matched} of {total} node(s)"⟩]
  return .texts found.nodes.ids

def settings (choice : LayoutChoice) : Work Layout.Settings := do
  let found ← match choice.config with
    | none => pure {}
    | some file =>
      orFail (fun e => ⟨s!"Failed to load layout config {file}", e.chain⟩)
        (Layout.Settings.load file (files file))
  return { found with kind := choice.kind.getD found.kind }

def LayoutChoice.shown (choice : LayoutChoice) (p : Positions Float) : Positions Float :=
  match choice.viewport with
  | none => p
  | some v => p.fit v.width v.height choice.margin

def runLayout (graph : String) (hierarchy : HierarchyChoice) (choice : LayoutChoice) :
    Work Json := do
  let (reg, g) ← loadGraph files graph
  let rule ← hierarchyRule hierarchy reg
  let s ← settings files choice
  let runner ← orFail (fun e => ⟨e.message, []⟩) (Layout.Runner.make s g rule)
  report (runner.hierarchy.builtEvent :: runner.stepEvents)
  let (runner, steps) := runner.finish
  report [⟨.debug, s!"{runner.name} layout finished in {steps} step(s)"⟩]
  let unplaced := g.nodeCount - runner.positions.size
  if 0 < unplaced then
    report [⟨.warn, s!"{unplaced} node(s) are not reachable from any hierarchy root"⟩]
  return (choice.shown runner.positions).toJson

def runRoots (graph : String) (hierarchy : HierarchyChoice) : Work Json := do
  let (reg, g) ← loadGraph files graph
  let rule ← hierarchyRule hierarchy reg
  let h := Hierarchy.ofGraph g rule
  report [h.builtEvent]
  return .texts h.roots.ids

def vocabulary (reg : Registry) : Json :=
  let entry (r : Relation) : Json :=
    .fields [("name", .text r.forward), ("reverse", .text r.reverse)]
  .fields [("relations", .array (reg.relationList.map entry)), ("sets", .texts reg.setNames)]

def Task.perform : Task → Work Json
  | .query graph path starts => runQuery files graph path starts
  | .layout graph hierarchy choice => runLayout files graph hierarchy choice
  | .roots graph hierarchy => runRoots files graph hierarchy
  | .relations => return vocabulary .builtin

inductive Ending where
  | done (output : String)
  | failed (failure : Failure)
  | misused (error : UsageError)
deriving DecidableEq, Repr

structure Report where
  ending : Ending
  events : List Event := []
deriving DecidableEq, Repr

def Ending.code : Ending → UInt8
  | done _ => 0
  | failed _ => 1
  | misused _ => 2

def Invocation.run (i : Invocation) : Report :=
  let (result, events) := (i.task.perform files).outcome
  let ending := match result with
    | .ok json => .done ((if i.pretty then json.pretty 0 else json.compact) ++ "\n")
    | .error failure => .failed failure
  ⟨ending, events.filter fun e => i.threshold.rank ≤ e.level.rank⟩

def versionLine : String := "depscope 0.1.0\n"

def manual : String := "Query and lay out software dependency graphs

Usage:
  depscope query --graph FILE --path FILE --from ID...
  depscope layout --graph FILE --relation NAME --set NAME [--reverse] [--config FILE]
    [--kind linear|radial] [--fit WIDTHxHEIGHT] [--margin NUMBER]
  depscope roots --graph FILE --relation NAME --set NAME [--reverse]
  depscope relations

Everywhere: --verbose, --quiet, --pretty
"

def Stop.report : Stop → Report
  | .usage e => ⟨.misused e, []⟩
  | .version => ⟨.done versionLine, []⟩
  | .help => ⟨.done manual, []⟩

def run (args : List String) : Report :=
  match Invocation.parse args with
  | .ok i => i.run files
  | .error stop => stop.report

end DependencyAtlas.Command
