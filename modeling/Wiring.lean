import Wiring.Calendar
import Wiring.Capability.Basic
import Wiring.Capability.Registry
import Wiring.Classify.Explanation
import Wiring.Classify.Pass
import Wiring.Classify.Proxy
import Wiring.Classify.Rules
import Wiring.Classify.Strategy
import Wiring.Classify.Violation
import Wiring.Classify.Weaver
import Wiring.Command.Line
import Wiring.Command.Perform
import Wiring.Decimal.Layout
import Wiring.Decimal.Shortest
import Wiring.Files.Host
import Wiring.Files.Pattern
import Wiring.Files.Search
import Wiring.Files.Tree
import Wiring.Format.Class
import Wiring.Format.Plan
import Wiring.Format.Report
import Wiring.Hash.Sha256
import Wiring.Json.Basic
import Wiring.Json.Codec
import Wiring.Json.Numeral
import Wiring.Json.Printer
import Wiring.Json.Reading
import Wiring.Json.Token
import Wiring.Json.Tree
import Wiring.Main
import Wiring.Marker
import Wiring.Model.Basic
import Wiring.Model.Enumeration
import Wiring.Path
import Wiring.Plan.Basic
import Wiring.Plan.Record
import Wiring.Proofs.Accounts
import Wiring.Proofs.Course
import Wiring.Proofs.Entries
import Wiring.Proofs.Enumeration
import Wiring.Proofs.Independence
import Wiring.Proofs.Marking
import Wiring.Proofs.Precedence
import Wiring.Proofs.Reachability
import Wiring.Proofs.Rejection
import Wiring.Proofs.StringMap
import Wiring.Proofs.Traversal
import Wiring.Report.Basic
import Wiring.Report.Markdown
import Wiring.Run.Artifacts
import Wiring.Run.Basic
import Wiring.Run.Config
import Wiring.Run.Instant
import Wiring.Run.Source
import Wiring.StringMap
import Wiring.Text.Blank
import Wiring.Text.Quoted
import Wiring.Text.Visible
import Wiring.Toml.Document
import Wiring.Toml.Scalar
import Wiring.Toml.Value
import Wiring.Proofs.Interception
import Wiring.Proofs.Closure
import Wiring.Proofs.Frame
import Wiring.Proofs.Rebuild
import Wiring.Proofs.Weaving
import Wiring.Proofs.Remainder
import Wiring.Proofs.Origins
import Wiring.Proofs.Statics
import Wiring.Proofs.Access
import Wiring.Proofs.Lexing
import Wiring.Proofs.Trees
import Wiring.Proofs.Decoding
import Wiring.Proofs.ClassFiles
import Wiring.Proofs.Documents
import Wiring.Proofs.Reports
import Wiring.Proofs.Fingerprints
import Wiring.Proofs.Isolation
import Wiring.Proofs.Truncation
import Wiring.Proofs.InputOrder
import Wiring.Proofs.Writing
import Wiring.Proofs.Redefinition
import Wiring.Proofs.Detection
import Wiring.Proofs.Lockstep
import Wiring.Proofs.Switches
import Wiring.Proofs.Adapters
import Wiring.Proofs.Setters
import Wiring.Proofs.AdaptedTypes
import Wiring.Proofs.Readers
import Wiring.Proofs.Bindings
import Wiring.Proofs.Validation
import Wiring.Proofs.Judgements
import Wiring.Proofs.Exposure
import Wiring.Proofs.Layers
import Wiring.Proofs.Processing
import Wiring.Proofs.Histories
import Wiring.Proofs.Accumulation
import Wiring.Proofs.Lookup
import Wiring.Proofs.PlanNames
import Wiring.Proofs.Paths
import Wiring.Proofs.Volumes
import Wiring.Proofs.DirectoryInputs
import Wiring.Proofs.Labels
import Wiring.Proofs.Pages
import Wiring.Proofs.Positions
import Wiring.Proofs.Bounds
