import CodeRs.AccountUsage.Buckets
import CodeRs.AccountUsage.Data
import CodeRs.AccountUsage.File
import CodeRs.AccountUsage.Ledger
import CodeRs.AccountUsage.Locking
import CodeRs.AccountUsage.RefreshAttempts
import CodeRs.AccountUsage.Switching
import CodeRs.AccountUsage.Warnings
import CodeRs.Agent.Attempt
import CodeRs.Agent.CallOutputs
import CodeRs.Agent.Loop
import CodeRs.Agent.Turn
import CodeRs.AppServer.Callbacks
import CodeRs.ApplyPatch.Agreement
import CodeRs.ApplyPatch.Derive
import CodeRs.ApplyPatch.Edits
import CodeRs.ApplyPatch.Execute
import CodeRs.ApplyPatch.Hunk
import CodeRs.ApplyPatch.Orders
import CodeRs.ApplyPatch.Parser
import CodeRs.ApplyPatch.Reading
import CodeRs.ApplyPatch.Replacements
import CodeRs.ApplyPatch.Report
import CodeRs.ApplyPatch.RoundTrip
import CodeRs.ApplyPatch.SeekSequence
import CodeRs.ApplyPatch.UntouchedLines
import CodeRs.Auth.AccountRuns
import CodeRs.Auth.Accounts
import CodeRs.AutoDrive.AutoCompact
import CodeRs.AutoDrive.ContinueModes
import CodeRs.AutoDrive.ConvertedHistory
import CodeRs.AutoDrive.CoordinatorLoop
import CodeRs.AutoDrive.CoordinatorMessages
import CodeRs.AutoDrive.CoordinatorProtocol
import CodeRs.AutoDrive.CoordinatorRuns
import CodeRs.AutoDrive.Countdown
import CodeRs.AutoDrive.DecisionContract
import CodeRs.AutoDrive.DecisionObject
import CodeRs.AutoDrive.DecisionParsing
import CodeRs.AutoDrive.DecisionPayloads
import CodeRs.AutoDrive.HardLimit
import CodeRs.AutoDrive.Phase
import CodeRs.AutoDrive.RateLimitHint
import CodeRs.AutoDrive.RestartTokens
import CodeRs.AutoDrive.ReviewLock
import CodeRs.Chat.Aggregated
import CodeRs.Chat.CallPairs
import CodeRs.Chat.Messages
import CodeRs.Chat.OncePerTurn
import CodeRs.Chat.ReasoningAnchors
import CodeRs.Chat.SentReasoning
import CodeRs.Chat.Sse
import CodeRs.Chat.Terminal
import CodeRs.Chat.ToolCalls
import CodeRs.Chat.Turn
import CodeRs.Compaction.Atomicity
import CodeRs.Compaction.InlinePrompts
import CodeRs.Compaction.Persistence
import CodeRs.Compaction.Prompt
import CodeRs.Compaction.ReplayedHistory
import CodeRs.Compaction.Summary
import CodeRs.Compaction.Task
import CodeRs.Compaction.TruncatedLength
import CodeRs.Composer.History
import CodeRs.Composer.TextArea
import CodeRs.Composer.TextAreaCursor
import CodeRs.Composer.TextAreaRuns
import CodeRs.Config.AgentLists
import CodeRs.Config.Edits
import CodeRs.Config.OverrideRuns
import CodeRs.Config.Overrides
import CodeRs.Display.LiveWrap
import CodeRs.DryRun.Analysis
import CodeRs.DryRun.Dispatch
import CodeRs.DryRun.Edits
import CodeRs.DryRun.KeepsCommand
import CodeRs.DryRun.Peeling
import CodeRs.DryRun.Suggestions
import CodeRs.Environment.Insertions
import CodeRs.Environment.Lockstep
import CodeRs.Environment.RoundTrip
import CodeRs.Environment.Snapshot
import CodeRs.Environment.Timeline
import CodeRs.Environment.Tracker
import CodeRs.ExecCommand.Collector
import CodeRs.ExecCommand.OutputBuffer
import CodeRs.ExecCommand.ReadCapped
import CodeRs.ExecPolicy.Accounting
import CodeRs.ExecPolicy.ArgMatcher
import CodeRs.ExecPolicy.Matching
import CodeRs.ExecPolicy.Resolution
import CodeRs.FileSearch.Manager
import CodeRs.FileSearch.Search
import CodeRs.GitApply.OwnLines
import CodeRs.History.Answers
import CodeRs.History.AssistantText
import CodeRs.History.Edits
import CodeRs.History.GlobalLimit
import CodeRs.History.IdIndex
import CodeRs.History.Lookups
import CodeRs.History.Record
import CodeRs.History.Restore
import CodeRs.History.Retained
import CodeRs.History.State
import CodeRs.History.Steps
import CodeRs.History.StreamBytes
import CodeRs.History.StreamCuts
import CodeRs.Lib.Calendar
import CodeRs.Lib.Debts
import CodeRs.Lib.Decimal
import CodeRs.Lib.Eviction
import CodeRs.Lib.FileEdit
import CodeRs.Lib.FileSystem
import CodeRs.Lib.FileTree
import CodeRs.Lib.Json
import CodeRs.Lib.Keyed
import CodeRs.Lib.Lines
import CodeRs.Lib.Lists
import CodeRs.Lib.Monitor
import CodeRs.Lib.Naming
import CodeRs.Lib.Paging
import CodeRs.Lib.PartialMap
import CodeRs.Lib.Path
import CodeRs.Lib.Prefixes
import CodeRs.Lib.Program
import CodeRs.Lib.Ranking
import CodeRs.Lib.Runs
import CodeRs.Lib.Saturating
import CodeRs.Lib.Search
import CodeRs.Lib.Serial
import CodeRs.Lib.ShellScript
import CodeRs.Lib.Stamps
import CodeRs.Lib.Text
import CodeRs.Lib.TextEdit
import CodeRs.Lib.Toml
import CodeRs.Lib.Utf8
import CodeRs.Mcp.Qualified
import CodeRs.Mcp.Tools
import CodeRs.Memory.Citations
import CodeRs.Memory.Selection
import CodeRs.Memory.Summaries
import CodeRs.Memory.Usage
import CodeRs.Probe.JsonObject
import CodeRs.Probe.Trigger
import CodeRs.Prompt.Numeric
import CodeRs.Protocol.Models
import CodeRs.Protocol.Policies
import CodeRs.Retention.Guarantees
import CodeRs.Retention.Legacy
import CodeRs.Review.Epoch
import CodeRs.Review.Lock
import CodeRs.Review.StaleLock
import CodeRs.Rollout.Archive
import CodeRs.Rollout.ArchiveAtomicity
import CodeRs.Rollout.ArchiveMoves
import CodeRs.Rollout.Catalog
import CodeRs.Rollout.CatalogIndexes
import CodeRs.Rollout.CatalogWriters
import CodeRs.Rollout.DirectoryScan
import CodeRs.Rollout.DiskOrders
import CodeRs.Rollout.List
import CodeRs.Rollout.LostUpdates
import CodeRs.Rollout.NewestRollouts
import CodeRs.Rollout.Pages
import CodeRs.Rollout.ReconcileOrder
import CodeRs.Rollout.ScanOrder
import CodeRs.Rollout.SessionViews
import CodeRs.Safety.CommandSafety
import CodeRs.Safety.GitDirs
import CodeRs.Safety.KnownSafe
import CodeRs.Safety.PatchSafety
import CodeRs.Session.Approvals
import CodeRs.Session.ExecEnds
import CodeRs.Session.RunningExecs
import CodeRs.Session.Sequences
import CodeRs.Session.TurnQueues
import CodeRs.Session.UserMessage
import CodeRs.TurnDiff.Tracker
