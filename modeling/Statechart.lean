import Statechart.Chart.Basic
import Statechart.Chart.Check
import Statechart.Chart.Compile
import Statechart.Chart.Layout
import Statechart.Checksum
import Statechart.CommandLine.Arguments
import Statechart.CommandLine.Help
import Statechart.CommandLine.Run
import Statechart.Definition.Basic
import Statechart.Definition.Reader
import Statechart.Definition.Writer
import Statechart.Dict
import Statechart.Error
import Statechart.Evaluator
import Statechart.Event.Basic
import Statechart.Event.Trigger
import Statechart.FileSystem
import Statechart.Guard.Expr
import Statechart.Guard.Parser
import Statechart.Guard.Token
import Statechart.Host.Basic
import Statechart.Host.Error
import Statechart.Host.Registry
import Statechart.Host.Worker
import Statechart.Journal
import Statechart.Journal.Log
import Statechart.Listeners
import Statechart.Machine.Basic
import Statechart.Main
import Statechart.NodeSet
import Statechart.Number.Basic
import Statechart.Number.Double
import Statechart.Number.Literal
import Statechart.Number.Shortest
import Statechart.Process
import Statechart.Proofs.Atomicity
import Statechart.Proofs.Caching
import Statechart.Proofs.Chronicle
import Statechart.Proofs.Coexistence
import Statechart.Proofs.Comparison
import Statechart.Proofs.CompletionReports
import Statechart.Proofs.Configuration
import Statechart.Proofs.ConfigurationTrees
import Statechart.Proofs.Conflict
import Statechart.Proofs.Covering
import Statechart.Proofs.DateIndependence
import Statechart.Proofs.DefaultEntry
import Statechart.Proofs.Defaults
import Statechart.Proofs.Depth
import Statechart.Proofs.DoneEvents
import Statechart.Proofs.Entrances
import Statechart.Proofs.Entry
import Statechart.Proofs.EntryRoots
import Statechart.Proofs.EventPortions
import Statechart.Proofs.ExclusiveTargets
import Statechart.Proofs.Executable
import Statechart.Proofs.FailedSearches
import Statechart.Proofs.FileLabels
import Statechart.Proofs.FinalAlone
import Statechart.Proofs.Fleet
import Statechart.Proofs.Frame
import Statechart.Proofs.FuelMonotonicity
import Statechart.Proofs.Grammar
import Statechart.Proofs.Handover
import Statechart.Proofs.History
import Statechart.Proofs.InitialEntry
import Statechart.Proofs.InstanceIndependence
import Statechart.Proofs.Invariant
import Statechart.Proofs.Layout
import Statechart.Proofs.Legal
import Statechart.Proofs.Lexing
import Statechart.Proofs.ListenerReplay
import Statechart.Proofs.Lockstep
import Statechart.Proofs.MacrostepTermination
import Statechart.Proofs.Microstep
import Statechart.Proofs.MicrostepOrder
import Statechart.Proofs.Naming
import Statechart.Proofs.Numbering
import Statechart.Proofs.ObservableIsolation
import Statechart.Proofs.ObservableNumbering
import Statechart.Proofs.OperationTraces
import Statechart.Proofs.Operations
import Statechart.Proofs.Plan
import Statechart.Proofs.Preorder
import Statechart.Proofs.Printed
import Statechart.Proofs.ProcessLifecycle
import Statechart.Proofs.ProcessLives
import Statechart.Proofs.ProcessesAtRest
import Statechart.Proofs.Refinement
import Statechart.Proofs.Registration
import Statechart.Proofs.Regular
import Statechart.Proofs.Reload
import Statechart.Proofs.Restart
import Statechart.Proofs.Restore
import Statechart.Proofs.RoundTrip
import Statechart.Proofs.Rounding
import Statechart.Proofs.Run
import Statechart.Proofs.RunToCompletion
import Statechart.Proofs.RunTrace
import Statechart.Proofs.Scope
import Statechart.Proofs.Selection
import Statechart.Proofs.SelectionByLeaf
import Statechart.Proofs.SessionTrace
import Statechart.Proofs.SnapshotAdmission
import Statechart.Proofs.Spelling
import Statechart.Proofs.Stopped
import Statechart.Proofs.StoreInvariants
import Statechart.Proofs.TableBounds
import Statechart.Proofs.Tree
import Statechart.Proofs.Triggers
import Statechart.Proofs.WellFormed
import Statechart.Proofs.WithoutProcesses
import Statechart.Proofs.WorkerFutures
import Statechart.Proofs.WorkerScheduling
import Statechart.Proofs.Written
import Statechart.Session.Basic
import Statechart.Session.Content
import Statechart.Session.Macrostep
import Statechart.Session.Microstep
import Statechart.Session.Processes
import Statechart.Session.Selection
import Statechart.Settings
import Statechart.Sorting
import Statechart.Step.Basic
import Statechart.Step.Entry
import Statechart.Store.Basic
import Statechart.Store.Scope
import Statechart.Store.Snapshot
import Statechart.Supply
import Statechart.Text.Blank
import Statechart.Text.Letter
import Statechart.Text.Quoted
import Statechart.Text.Segment
import Statechart.Text.Terminal
import Statechart.Text.Wrap
import Statechart.Value.Basic
import Statechart.Value.Flow
import Statechart.Value.Parser
import Statechart.Value.Printer
import Statechart.Value.Reader
import Statechart.Value.Yaml
