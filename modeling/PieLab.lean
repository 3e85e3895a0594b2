import PieLab.Lib.Scan
import PieLab.Lib.ParentWalk
import PieLab.Lib.OrderedMap
import PieLab.Lib.Runs
import PieLab.Lib.SafeRuns
import PieLab.Lib.Logged
import PieLab.Lib.Checks
import PieLab.Lib.Splices
import PieLab.Lib.PosixPath
import PieLab.Messages
import PieLab.Json
import PieLab.Session.Entry
import PieLab.Session.HarnessContext
import PieLab.Compaction.CutPoint
import PieLab.Compaction.Prepare
import PieLab.Compaction.Partition
import PieLab.Compaction.Summary
import PieLab.Session.Manager
import PieLab.Session.Migration
import PieLab.Session.Fork
import PieLab.Session.Branching
import PieLab.Session.SessionFile
import PieLab.Server.ChatApi
import PieLab.Server.ConversationPaths
import PieLab.Scheduler.Schedule
import PieLab.Scheduler.JobIds
import PieLab.Scheduler.JobStore
import PieLab.Scheduler.Exclusion
import PieLab.Scheduler.Runner
import PieLab.Scheduler.Staleness
import PieLab.Scheduler.RunLimits
import PieLab.Scheduler.Tick
import PieLab.Hashline.Format
import PieLab.Hashline.Patch
import PieLab.Hashline.Gaps
import PieLab.Hashline.Apply
import PieLab.Tools.EditDiff
import PieLab.Tools.FileMutationQueue
import PieLab.Tools.Edit
import PieLab.Lib.JsonText
import PieLab.Lib.JsonReading
import PieLab.Session.TornFile
import PieLab.Lib.Lines
import PieLab.Lib.Utf8
import PieLab.Tools.Truncate
import PieLab.Tools.OutputAccumulator
import PieLab.Lib.IsoDate
import PieLab.Lib.StableSort
import PieLab.Router.Connections
import PieLab.Router.Explanation
import PieLab.Router.RetryAfter
import PieLab.Lib.RoundRobin
import PieLab.Router.Rotation
import PieLab.Router.Routes
import PieLab.Router.RouteAgreement
import PieLab.Lib.Interaction
import PieLab.Agent.Environment
import PieLab.Agent.ToolCalls
import PieLab.Lib.StatefulRuns
import PieLab.Agent.ToolQueries
import PieLab.Agent.Loop
import PieLab.Agent.EventLog
import PieLab.Agent.Queues
import PieLab.Lib.Decimal
import PieLab.Hashline.Parse
import PieLab.Hashline.Recovery
import PieLab.Gateway.ConversationLock
import PieLab.Orchestrator.RpcProcess
import PieLab.Orchestrator.Supervisor
import PieLab.Orchestrator.StoppedInstances
import PieLab.Agent.QueueConservation
import PieLab.Agent.Transcript
import PieLab.Ai.TransformMessages
import PieLab.Lib.Transcript
import PieLab.Ai.ToolCallPairing
import PieLab.Lib.JsLists
import PieLab.Tui.Segments
import PieLab.Tui.WordNavigation
import PieLab.Tui.Editor
import PieLab.Tui.EditorUndo
import PieLab.Tui.OverlayFocus
import PieLab.Tui.OverlayLinks
import PieLab.Tui.KeyRouting
import PieLab.Lib.FixedPoint
import PieLab.Server.BudgetPolicy
import PieLab.Server.GlobalBudgets
import PieLab.Gateway.ChatLog
import PieLab.Gateway.ChatRuntime
import PieLab.Gateway.PromptCoverage
import PieLab.Gateway.WebIpc
import PieLab.Gateway.WebAnswers
import PieLab.Gateway.WorkerFailures
import PieLab.Server.RoutedAttempts
import PieLab.Server.AttemptFinality
import PieLab.Agent.Harness
import PieLab.Agent.HarnessConservation
import PieLab.Lib.WriteBack
import PieLab.Settings.Manager
import PieLab.Settings.Merging
import PieLab.Settings.ThreeWayMerge
import PieLab.Lib.PointEdits
import PieLab.Hashline.LineEdits
import PieLab.Hashline.Snapshots
import PieLab.Hashline.BlankLines
import PieLab.Tools.ReadLines
import PieLab.Hashline.BlankResults
import PieLab.Hashline.RecoveredPlaces
import PieLab.Lib.PositionMerge
import PieLab.Hashline.LineMerge
import PieLab.Lib.Occurrences
import PieLab.Tools.EditOccurrences
import PieLab.Lib.RangeEdits
import PieLab.Tools.UntouchedLines
import PieLab.Server.AgentAnswers
import PieLab.Compaction.CutChoice
import PieLab.Lib.LongestRuns
import PieLab.Tools.TruncatedRuns
import PieLab.Tools.LineCounts
import PieLab.Session.FailedSwitch
import PieLab.Tools.PatchedFiles
import PieLab.Tools.QueueKeys
import PieLab.Tools.StreamedReads
import PieLab.Tools.KeptLines
import PieLab.Tools.LineEndings
import PieLab.Tools.EditPreview
import PieLab.Router.LockUnion
import PieLab.Scheduler.MissedRuns
import PieLab.Session.PathWalks
import PieLab.Session.PrintedEntries
import PieLab.Session.HarnessStorage
import PieLab.Session.IndexRebuild
import PieLab.Lib.Numerals
import PieLab.Scheduler.CronField
import PieLab.Lib.LocalClock
import PieLab.Scheduler.CronRun
import PieLab.Router.RtkTexts
import PieLab.Tui.StdinBuffer
import PieLab.Tui.StdinChunks
import PieLab.Lib.Replacements
import PieLab.Tui.PasteExpansion
import PieLab.Lib.Cuts
import PieLab.Tui.WordWrap
import PieLab.Tui.KillYank
import PieLab.Agent.AutoRecovery
import PieLab.Gateway.StreamingPreview
import PieLab.Agent.UuidV7
import PieLab.Server.ResentMessages
import PieLab.Lib.Draining
import PieLab.Ai.ServerSentEvents
import PieLab.Rpc.JsonLines
