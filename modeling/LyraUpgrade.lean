import LyraUpgrade.Interaction.Program
import LyraUpgrade.Interaction.Pool
import LyraUpgrade.Interaction.Transcript
import LyraUpgrade.Interaction.Alone
import LyraUpgrade.Interaction.Schedule
import LyraUpgrade.Interaction.Recorded
import LyraUpgrade.Interaction.Exchange
import LyraUpgrade.Encoding.Json
import LyraUpgrade.Encoding.Pretty
import LyraUpgrade.Encoding.Result
import LyraUpgrade.Encoding.Xml
import LyraUpgrade.Encoding.XmlTree
import LyraUpgrade.Encoding.Document
import LyraUpgrade.Encoding.Lines
import LyraUpgrade.Encoding.Search
import LyraUpgrade.Encoding.Utf8
import LyraUpgrade.Encoding.Reader
import LyraUpgrade.Core.Operation
import LyraUpgrade.Core.Text
import LyraUpgrade.Core.TextLines
import LyraUpgrade.Core.ProductRelease
import LyraUpgrade.Core.Persistence
import LyraUpgrade.Core.Preflight
import LyraUpgrade.Core.Solver
import LyraUpgrade.Core.Manifest
import LyraUpgrade.Core.Migration
import LyraUpgrade.Core.Plan
import LyraUpgrade.Core.ArrivalOrder
import LyraUpgrade.Core.Route
import LyraUpgrade.Core.Gate
import LyraUpgrade.Core.PackageInventory
import LyraUpgrade.Core.DiscoveredHost
import LyraUpgrade.Core.Progress
import LyraUpgrade.Core.Pending
import LyraUpgrade.Core.Deserialize
import LyraUpgrade.Core.StateJson
import LyraUpgrade.Core.ManifestDocument
import LyraUpgrade.Core.PlanDocument
import LyraUpgrade.Core.VendorGrants
import LyraUpgrade.Core.MigrationPlan
import LyraUpgrade.Core.Sanitize
import LyraUpgrade.Core.Masks
import LyraUpgrade.Core.TerminalControls
import LyraUpgrade.Core.Redaction
import LyraUpgrade.Core.UrlRedaction
import LyraUpgrade.Service.Planner
import LyraUpgrade.Service.StagedHashes
import LyraUpgrade.Service.SolverXml
import LyraUpgrade.Service.VendorMetadata
import LyraUpgrade.Service.DocumentTree
import LyraUpgrade.Service.VendorRecords
import LyraUpgrade.Service.Enrichment
import LyraUpgrade.Service.SolverMerge
import LyraUpgrade.Service.SolverSummary
import LyraUpgrade.Service.SolverOrder
import LyraUpgrade.Service.ResultCheck
import LyraUpgrade.Service.WithinRelease
import LyraUpgrade.Service.Admission
import LyraUpgrade.System.Effect
import LyraUpgrade.System.World
import LyraUpgrade.System.Simulation
import LyraUpgrade.System.Reliable
import LyraUpgrade.System.Storage
import LyraUpgrade.Service.RepositoryKeys
import LyraUpgrade.Service.Executor
import LyraUpgrade.Service.Payloads
import LyraUpgrade.Service.Requests
import LyraUpgrade.Service.Preview
import LyraUpgrade.Service.PreviewRuns
import LyraUpgrade.Service.Protocol
import LyraUpgrade.Service.Conformance
import LyraUpgrade.Service.Decision
import LyraUpgrade.Service.CancelRace
import LyraUpgrade.Service.CancelFinal
import LyraUpgrade.Service.OneWorker
import LyraUpgrade.Service.RollbackProtocol
import LyraUpgrade.Service.Isolation
import LyraUpgrade.Service.Untrusted
import LyraUpgrade.Service.Acknowledgement
import LyraUpgrade.Service.Exclusion
import LyraUpgrade.Service.Reports
import LyraUpgrade.Service.Convergence
import LyraUpgrade.Service.EventLog
import LyraUpgrade.Service.Retention
import LyraUpgrade.Service.EventHistory
import LyraUpgrade.Service.EventReader
import LyraUpgrade.Service.EventMemory
import LyraUpgrade.Service.Watch
import LyraUpgrade.Service.TornHistory
import LyraUpgrade.Service.EventWindow
import LyraUpgrade.Service.WatchRuns
import LyraUpgrade.Service.AnyHistory
import LyraUpgrade.Service.Session
import LyraUpgrade.Service.SessionRuns
import LyraUpgrade.Service.SimulatedReads
import LyraUpgrade.Offline.Executor
import LyraUpgrade.Offline.Cleanup
import LyraUpgrade.Offline.Protocol
import LyraUpgrade.Offline.Publication
import LyraUpgrade.Offline.RepositoryFiles
import LyraUpgrade.Encoding.Paths
import LyraUpgrade.Encoding.Trees
import LyraUpgrade.Offline.MarkerTarget
import LyraUpgrade.Verifier.Boot
import LyraUpgrade.Verifier.Dependencies
import LyraUpgrade.Verifier.Identity
import LyraUpgrade.Verifier.Replay
import LyraUpgrade.Verifier.Protocol
import LyraUpgrade.Verifier.Recovery
import LyraUpgrade.Verifier.Reconciliation
import LyraUpgrade.Verifier.Queue
import LyraUpgrade.Verifier.PendingScan
import LyraUpgrade.System.Writers
import LyraUpgrade.System.Causes
import LyraUpgrade.System.Copies
import LyraUpgrade.System.Sequence
import LyraUpgrade.System.Lifecycle
import LyraUpgrade.System.ReplayRecord
import LyraUpgrade.System.OfflineOnce
import LyraUpgrade.System.Completion
import LyraUpgrade.Tool.ReleaseManifest
import LyraUpgrade.Tool.Versions
import LyraUpgrade.Tool.Agreement
