import ChartTree.Chart.Render
import ChartTree.Json.Reader
import ChartTree.Json.Standard
import ChartTree.Session
import ChartTree.Proofs.Node.Regular
import ChartTree.Proofs.Node.Setters
import ChartTree.Proofs.Node.Shape
import ChartTree.Proofs.Node.Slots
import ChartTree.Proofs.Node.Verdict
import ChartTree.Proofs.Node.Refusal
import ChartTree.Proofs.Node.Fluent
import ChartTree.Proofs.Session.Unfolding
import ChartTree.Proofs.Session.Sound
import ChartTree.Proofs.Session.Grown
import ChartTree.Proofs.Session.Built
import ChartTree.Proofs.Session.Copying
import ChartTree.Proofs.Session.Refusal
import ChartTree.Proofs.Number.Shortest
import ChartTree.Proofs.Data.Registry
import ChartTree.Proofs.Data.Naming
import ChartTree.Proofs.Value.Symmetry
import ChartTree.Proofs.Data.SameData
import ChartTree.Proofs.Chart.Assembly
import ChartTree.Proofs.Chart.Trace
import ChartTree.Proofs.Chart.Hoisting
import ChartTree.Proofs.Chart.Datasets
import ChartTree.Proofs.Chart.Sources
import ChartTree.Proofs.Chart.Coupling
import ChartTree.Proofs.Chart.Opacity
import ChartTree.Proofs.Chart.Concatenation
import ChartTree.Proofs.Chart.Binding
import ChartTree.Proofs.Chart.Rebinding
import ChartTree.Proofs.Chart.BoundAxes
import ChartTree.Proofs.Chart.Injection
import ChartTree.Proofs.Chart.Mirror
import ChartTree.Proofs.Chart.Violations
import ChartTree.Proofs.Chart.Ending
import ChartTree.Proofs.Chart.Fidelity
import ChartTree.Proofs.Chart.Copies
import ChartTree.Proofs.Chart.Encodable
import ChartTree.Proofs.Json.Element
import ChartTree.Proofs.Json.Layouts
import ChartTree.Proofs.Json.NormalForm
import ChartTree.Proofs.Json.Acceptance
import ChartTree.Proofs.Node.Objects
import ChartTree.Proofs.Node.Vocabularies
import ChartTree.Proofs.Session.Isolation
import ChartTree.Proofs.Session.Vocabularies
import ChartTree.Proofs.Chart.Independence
import ChartTree.Proofs.Chart.Vocabularies
