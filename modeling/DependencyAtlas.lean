import DependencyAtlas.Command.Arguments
import DependencyAtlas.Command.Invocation
import DependencyAtlas.Command.Options
import DependencyAtlas.Command.Program
import DependencyAtlas.Decimal.Binary
import DependencyAtlas.Decimal.Numeral
import DependencyAtlas.Decimal.Text
import DependencyAtlas.Document.Datum
import DependencyAtlas.Document.File
import DependencyAtlas.Document.Graph
import DependencyAtlas.Document.Record
import DependencyAtlas.Document.Rejection
import DependencyAtlas.Geometry
import DependencyAtlas.Graph
import DependencyAtlas.Graph.Builder
import DependencyAtlas.Hierarchy
import DependencyAtlas.Json.Reading
import DependencyAtlas.Json.Value
import DependencyAtlas.Layout
import DependencyAtlas.Layout.Runner
import DependencyAtlas.Main
import DependencyAtlas.Node
import DependencyAtlas.Path.Draft
import DependencyAtlas.Path.Evaluation
import DependencyAtlas.Path.Expression
import DependencyAtlas.Path.Meaning
import DependencyAtlas.Path.Rejection
import DependencyAtlas.Proofs.Command.Choice
import DependencyAtlas.Proofs.Document.Form
import DependencyAtlas.Proofs.Document.Loading
import DependencyAtlas.Proofs.Document.Rejection
import DependencyAtlas.Proofs.Document.Reordering
import DependencyAtlas.Proofs.Document.RoundTrip
import DependencyAtlas.Proofs.Filing
import DependencyAtlas.Proofs.Geometry.Bounds
import DependencyAtlas.Proofs.Geometry.Viewport
import DependencyAtlas.Proofs.Graph.Builder
import DependencyAtlas.Proofs.Graph.Content
import DependencyAtlas.Proofs.Graph.History
import DependencyAtlas.Proofs.Graph.Subgraph
import DependencyAtlas.Proofs.Hierarchy
import DependencyAtlas.Proofs.Hierarchy.Reversal
import DependencyAtlas.Proofs.Hierarchy.Steps
import DependencyAtlas.Proofs.Layout.Comparison
import DependencyAtlas.Proofs.Layout.Counting
import DependencyAtlas.Proofs.Layout.Entered
import DependencyAtlas.Proofs.Layout.Extent
import DependencyAtlas.Proofs.Layout.Levels
import DependencyAtlas.Proofs.Layout.Limits
import DependencyAtlas.Proofs.Layout.OrphanRing
import DependencyAtlas.Proofs.Layout.Passes
import DependencyAtlas.Proofs.Layout.Placement
import DependencyAtlas.Proofs.Layout.Radial
import DependencyAtlas.Proofs.Layout.Ranges
import DependencyAtlas.Proofs.Layout.Spans
import DependencyAtlas.Proofs.NodeSet
import DependencyAtlas.Proofs.NodeSet.Algebra
import DependencyAtlas.Proofs.Path.Converse
import DependencyAtlas.Proofs.Path.Inclusion
import DependencyAtlas.Proofs.Path.Resolution
import DependencyAtlas.Proofs.Path.Rounds
import DependencyAtlas.Proofs.Path.Selection
import DependencyAtlas.Proofs.Path.Termination
import DependencyAtlas.Proofs.Registry
import DependencyAtlas.Proofs.Registry.History
import DependencyAtlas.Proofs.Registry.Resolution
import DependencyAtlas.Proofs.RelationSet
import DependencyAtlas.Proofs.Traversal.Calls
import DependencyAtlas.Proofs.Traversal.ChildrenFirst
import DependencyAtlas.Proofs.Traversal.Coverage
import DependencyAtlas.Proofs.Traversal.Forest
import DependencyAtlas.Proofs.Traversal.Recursion
import DependencyAtlas.Proofs.Traversal.Segments
import DependencyAtlas.Registry
import DependencyAtlas.Relation
import DependencyAtlas.Toml.Quoted
import DependencyAtlas.Toml.Reading
import DependencyAtlas.Toml.Value
import DependencyAtlas.Traversal
import DependencyAtlas.Traversal.Turn
