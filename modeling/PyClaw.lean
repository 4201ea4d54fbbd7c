import PyClaw.Agent.Agreement
import PyClaw.Agent.Approval
import PyClaw.Agent.Pairing
import PyClaw.Agent.Terminal
import PyClaw.Channels.Authority
import PyClaw.Channels.ConsumerExit
import PyClaw.Channels.EntryPoint
import PyClaw.Channels.FeishuAgreement
import PyClaw.Channels.Interference
import PyClaw.Channels.Originator
import PyClaw.Channels.Serial
import PyClaw.Channels.Switching
import PyClaw.Channels.WebApproval
import PyClaw.Channels.WebOwnership
import PyClaw.Channels.WebTerminal
import PyClaw.Commands.Interleaving
import PyClaw.Compaction.Loss
import PyClaw.Gateway.Ownership
import PyClaw.Memory.Isolation
import PyClaw.Tools.WireName
import PyClaw.Lib.Path
import PyClaw.Session.Workspace
import PyClaw.Lib.Redis
import PyClaw.Lock.RedisLock
import PyClaw.Lock.Exclusion
import PyClaw.Lock.Lifecycle
import PyClaw.Lib.Tasks
import PyClaw.Sop.Candidates
import PyClaw.Sop.Retention
import PyClaw.Sop.ExtractionLock
import PyClaw.Sop.Fencing
import PyClaw.Curator.Cycle
import PyClaw.Curator.LockLoss
import PyClaw.Mcp.ClientManager
import PyClaw.Mcp.Consistency
import PyClaw.Curator.Changes
import PyClaw.Curator.Guards
import PyClaw.Curator.LiveIndex
import PyClaw.Curator.Graduation
import PyClaw.Channels.FeishuRuns
import PyClaw.Channels.StopScope
import PyClaw.Channels.HeaderUpdates
import PyClaw.Session.KeyDerivation
import PyClaw.Sop.Content
import PyClaw.Commands.Admin
import PyClaw.Sandbox.Settings
import PyClaw.Commands.LastAdmin
import PyClaw.Curator.SkillFile
import PyClaw.Lib.YamlLines
import PyClaw.Curator.SkillFrontmatter
import PyClaw.Curator.SkillRoundTrip
import PyClaw.Lib.SortedSet
import PyClaw.Session.Backends
import PyClaw.Session.StoreAgreement
import PyClaw.Session.Forgetting
import PyClaw.Skills.Sharing
import PyClaw.Agent.Evidence
import PyClaw.Compaction.Atomicity
import PyClaw.Lib.Backward
import PyClaw.Lib.PyFloat
import PyClaw.Compaction.MessageDict
import PyClaw.Compaction.CutPoint
import PyClaw.Lib.Duplicates
import PyClaw.Compaction.Duplicates
import PyClaw.Compaction.RealConversation
import PyClaw.Agent.PromptBudget
import PyClaw.Agent.Chunking
import PyClaw.Tools.Schedule
import PyClaw.Agent.Timeout
import PyClaw.Agent.SystemBudget
import PyClaw.Lib.FileSystem
import PyClaw.Tools.Workspace
import PyClaw.Lib.Utf8
import PyClaw.Lib.Replace
import PyClaw.Tools.Edit
import PyClaw.Channels.Idle
import PyClaw.Memory.Usage
import PyClaw.Sop.DuplicateCheck
import PyClaw.Curator.Review
import PyClaw.Lib.Url
import PyClaw.Sop.Links
import PyClaw.Memory.Forget
import PyClaw.Tools.WorkingMemory
import PyClaw.Lib.Eviction
import PyClaw.Memory.L1Index
import PyClaw.Memory.L1Updates
import PyClaw.Memory.Archives
import PyClaw.Sop.CandidateLimit
import PyClaw.Sop.RecordedTurns
import PyClaw.Session.Export
import PyClaw.Lib.Bisect
import PyClaw.Skills.Prompt
import PyClaw.Lib.FileTree
import PyClaw.Lib.FileCalls
import PyClaw.Skills.Installer
import PyClaw.Skills.InstallSafety
import PyClaw.Lib.Mailbox
import PyClaw.Agent.Steering
import PyClaw.Channels.FeishuQueue
import PyClaw.Channels.Rotation
import PyClaw.Lib.Packing
import PyClaw.Tools.Truncation
import PyClaw.Compaction.StagedSummary
import PyClaw.Channels.OpenaiCompat
import PyClaw.Channels.StreamingCard
import PyClaw.Channels.FeishuDedup
import PyClaw.Commands.Tasks
import PyClaw.Auth.ProfileStore
import PyClaw.Gateway.Conservation
import PyClaw.Gateway.ProcessedOnce
import PyClaw.Gateway.EventCodec
import PyClaw.Channels.WebAuth
import PyClaw.Channels.WebAdmission
import PyClaw.Lib.Trail
import PyClaw.Session.Pipelines
import PyClaw.Session.Interrupted
import PyClaw.Session.Expiry
import PyClaw.Agent.Replay
import PyClaw.Lib.Alignment
import PyClaw.Sandbox.Environment
import PyClaw.Tools.Bash
import PyClaw.Tools.SettingsFiles
import PyClaw.Tools.Processes
