import StrategyCanvas.Code.Compile
import StrategyCanvas.Code.SourceMap.Codec
import StrategyCanvas.CommandLine
import StrategyCanvas.Edit.Codec
import StrategyCanvas.Finding.Codec
import StrategyCanvas.Main
import StrategyCanvas.Market.Cooldown
import StrategyCanvas.Market.LogEvent
import StrategyCanvas.Market.Parameter
import StrategyCanvas.Market.Shown
import StrategyCanvas.Proofs.Code.Plan
import StrategyCanvas.Proofs.Edit.WellFormed
import StrategyCanvas.Proofs.Finding.Report
import StrategyCanvas.Proofs.Flow.Cycle
import StrategyCanvas.Proofs.Flow.Schedule
import StrategyCanvas.Proofs.Flow.Walk
import StrategyCanvas.Series.Arithmetic
import StrategyCanvas.Series.Crossover
import StrategyCanvas.Series.Indicator.Bands
import StrategyCanvas.Series.Indicator.Convergence
import StrategyCanvas.Series.Indicator.RelativeStrength
import StrategyCanvas.Proofs.Code.Wiring
import StrategyCanvas.Proofs.Code.Emission
import StrategyCanvas.Proofs.Code.Compile
import StrategyCanvas.Proofs.Document.PortId
import StrategyCanvas.Proofs.Edit.Placed
import StrategyCanvas.Proofs.Catalog.Standard
import StrategyCanvas.Proofs.Edit.Standard
import StrategyCanvas.Proofs.Finding.Acceptance
import StrategyCanvas.Proofs.Code.Sheet
import StrategyCanvas.Proofs.Code.SourceMap
import StrategyCanvas.Proofs.Code.Field
import StrategyCanvas.Proofs.Code.Naming
import StrategyCanvas.Proofs.Code.Program
import StrategyCanvas.Proofs.Code.Arrangement
import StrategyCanvas.Proofs.Code.Rendering
import StrategyCanvas.Proofs.Code.Entries
import StrategyCanvas.Proofs.Code.BlockLocations
import StrategyCanvas.Proofs.Code.Reading
import StrategyCanvas.Proofs.Code.ConnectionLocations
import StrategyCanvas.Proofs.Code.Dataflow
import StrategyCanvas.Proofs.Step
import StrategyCanvas.Proofs.Edit.Connecting
import StrategyCanvas.Proofs.Edit.Additions
import StrategyCanvas.Proofs.Decimal.Layout
import StrategyCanvas.Proofs.Text.FieldPath
import StrategyCanvas.Proofs.Code.Closed
import StrategyCanvas.Proofs.Code.DeclaredFields
import StrategyCanvas.Proofs.Decimal.Digits
import StrategyCanvas.Proofs.Json.Scanning
import StrategyCanvas.Proofs.Json.Numbers
import StrategyCanvas.Proofs.Json.Written
import StrategyCanvas.Proofs.Json.Decoding
import StrategyCanvas.Proofs.Time.Calendar
import StrategyCanvas.Proofs.Time.Reading
import StrategyCanvas.Proofs.Document.RoundTrip
import StrategyCanvas.Proofs.Code.Layout
import StrategyCanvas.Proofs.Finding.Reordering
import StrategyCanvas.Proofs.Code.Reordering
import StrategyCanvas.Proofs.Code.Initializers
import StrategyCanvas.Proofs.Text.Erasure
import StrategyCanvas.Proofs.Code.Erasure
import StrategyCanvas.Proofs.Code.Renaming
import StrategyCanvas.Proofs.Code.Clean
import StrategyCanvas.Proofs.Edit.Finite
import StrategyCanvas.Proofs.Text.Assignment
import StrategyCanvas.Proofs.Code.Functions
import StrategyCanvas.Proofs.Code.Assignments
import StrategyCanvas.Proofs.Text.Literal
import StrategyCanvas.Proofs.Code.Parameters
import StrategyCanvas.Proofs.Flow.Circular
import StrategyCanvas.Proofs.Finding.Redaction
import StrategyCanvas.Proofs.Code.Redaction
import StrategyCanvas.Proofs.Code.Configuration
import StrategyCanvas.Proofs.Finding.Rules
import StrategyCanvas.Proofs.Edit.Undo
import StrategyCanvas.Proofs.Code.Sources
import StrategyCanvas.Proofs.Flow.Isolated
import StrategyCanvas.Proofs.Code.FieldOwners
import StrategyCanvas.Proofs.Code.Placing
import StrategyCanvas.Proofs.Code.SelfContained
import StrategyCanvas.Proofs.Code.StructureName
import StrategyCanvas.Proofs.Edit.Deletion
import StrategyCanvas.Proofs.Code.ReadPlaces
import StrategyCanvas.Catalog.Indexed
import StrategyCanvas.Proofs.Catalog.Registration
import StrategyCanvas.Proofs.Series.Readiness
import StrategyCanvas.Proofs.Text.Blank
import StrategyCanvas.Proofs.Market.Series
import StrategyCanvas.Proofs.Run
import StrategyCanvas.Proofs.Series.Window
import StrategyCanvas.Proofs.Series.Crossover
import StrategyCanvas.Proofs.Market.Spacing
import StrategyCanvas.Proofs.Code.Ordering
import StrategyCanvas.Proofs.Code.Claiming
import StrategyCanvas.Proofs.Text.Search
import StrategyCanvas.Proofs.Code.GeneratedNames
import StrategyCanvas.Proofs.Code.Nesting
