import FileDelivery.Bridge.Announcements
import FileDelivery.Bridge.ArchiveCache
import FileDelivery.Bridge.Backends
import FileDelivery.Bridge.Background
import FileDelivery.Bridge.FileSpool
import FileDelivery.Bridge.Platform
import FileDelivery.Bridge.Replay
import FileDelivery.Bridge.RowLoads
import FileDelivery.Bridge.RunProgress
import FileDelivery.Bridge.RunSemaphores
import FileDelivery.Bridge.SpoolFiles
import FileDelivery.Bridge.System
import FileDelivery.Bridge.TaskApi
import FileDelivery.Bridge.UploadTask
import FileDelivery.Bridge.Wire
import FileDelivery.Control.Auth
import FileDelivery.Control.Classifier
import FileDelivery.Control.CreateTask
import FileDelivery.Control.Delivery
import FileDelivery.Control.FolderUpload
import FileDelivery.Control.IdempotencyGuard
import FileDelivery.Control.Messages
import FileDelivery.Control.Models
import FileDelivery.Control.OsPath
import FileDelivery.Control.Profile
import FileDelivery.Control.ProgressBus
import FileDelivery.Control.ProgressStream
import FileDelivery.Control.RedisClients
import FileDelivery.Control.Repos
import FileDelivery.Control.ResultConsumer
import FileDelivery.Control.ResultSession
import FileDelivery.Control.Runtime
import FileDelivery.Control.S3Uploader
import FileDelivery.Control.Schema
import FileDelivery.Control.Staging
import FileDelivery.Control.StagingCleanup
import FileDelivery.Control.TaskRunner
import FileDelivery.Control.TaskViews
import FileDelivery.Control.Tasks
import FileDelivery.Control.Text
import FileDelivery.Control.Workspaces
import FileDelivery.Library.Answers
import FileDelivery.Library.Claims
import FileDelivery.Library.Commits
import FileDelivery.Library.Endless
import FileDelivery.Library.EventStream
import FileDelivery.Library.Fallible
import FileDelivery.Library.Fanout
import FileDelivery.Library.Files
import FileDelivery.Library.FirstMatch
import FileDelivery.Library.Grouping
import FileDelivery.Library.Groups
import FileDelivery.Library.Handlers
import FileDelivery.Library.Interference
import FileDelivery.Library.Journal
import FileDelivery.Library.Json
import FileDelivery.Library.JsonText
import FileDelivery.Library.Lexical
import FileDelivery.Library.Memo
import FileDelivery.Library.Multipart
import FileDelivery.Library.Offsets
import FileDelivery.Library.Paging
import FileDelivery.Library.Pool
import FileDelivery.Library.Rows
import FileDelivery.Library.Runs
import FileDelivery.Library.Scan
import FileDelivery.Library.Segments
import FileDelivery.Library.Semaphores
import FileDelivery.Library.Timestamps
import FileDelivery.Library.Utf8
import FileDelivery.Library.Windows
import FileDelivery.Proofs.AckedOnce
import FileDelivery.Proofs.AnswerOrder
import FileDelivery.Proofs.ApplyLoop
import FileDelivery.Proofs.ApplyResult
import FileDelivery.Proofs.ApplyTwice
import FileDelivery.Proofs.ArchiveKept
import FileDelivery.Proofs.ArchivePaths
import FileDelivery.Proofs.Archives
import FileDelivery.Proofs.AtomicUpload
import FileDelivery.Proofs.AuditTrail
import FileDelivery.Proofs.BackendsAgree
import FileDelivery.Proofs.CacheTransparent
import FileDelivery.Proofs.Checksums
import FileDelivery.Proofs.ClaimsSafe
import FileDelivery.Proofs.CleanupAccounting
import FileDelivery.Proofs.CleanupRuns
import FileDelivery.Proofs.Completion
import FileDelivery.Proofs.ConfirmGate
import FileDelivery.Proofs.Contract
import FileDelivery.Proofs.CreateOnce
import FileDelivery.Proofs.CreateRetries
import FileDelivery.Proofs.DeliveredShown
import FileDelivery.Proofs.DeliveredStays
import FileDelivery.Proofs.Destinations
import FileDelivery.Proofs.Effects
import FileDelivery.Proofs.ErrorClasses
import FileDelivery.Proofs.ExactMessages
import FileDelivery.Proofs.Flow
import FileDelivery.Proofs.GuardKeys
import FileDelivery.Proofs.ItemNames
import FileDelivery.Proofs.LostWrites
import FileDelivery.Proofs.Moves
import FileDelivery.Proofs.NoLeak
import FileDelivery.Proofs.NoStranded
import FileDelivery.Proofs.PlatformTables
import FileDelivery.Proofs.Precedence
import FileDelivery.Proofs.ProgressFanout
import FileDelivery.Proofs.ProgressStreams
import FileDelivery.Proofs.PublishOnce
import FileDelivery.Proofs.PythonBackend
import FileDelivery.Proofs.QueuedRace
import FileDelivery.Proofs.RateBound
import FileDelivery.Proofs.RecipientIsolation
import FileDelivery.Proofs.Reclassify
import FileDelivery.Proofs.Recovery
import FileDelivery.Proofs.RedisProgress
import FileDelivery.Proofs.ResultAcks
import FileDelivery.Proofs.ResultFrame
import FileDelivery.Proofs.ResultOffsets
import FileDelivery.Proofs.Retention
import FileDelivery.Proofs.RunCounts
import FileDelivery.Proofs.RunCover
import FileDelivery.Proofs.RunEnds
import FileDelivery.Proofs.RunMoves
import FileDelivery.Proofs.RunSteps
import FileDelivery.Proofs.RunStory
import FileDelivery.Proofs.RunnerRecovery
import FileDelivery.Proofs.Schedules
import FileDelivery.Proofs.Sources
import FileDelivery.Proofs.SourcesAgree
import FileDelivery.Proofs.StagedKept
import FileDelivery.Proofs.StagingEvents
import FileDelivery.Proofs.StatusEdges
import FileDelivery.Proofs.StatusTruth
import FileDelivery.Proofs.Strategies
import FileDelivery.Proofs.Summaries
import FileDelivery.Proofs.SummaryCounts
import FileDelivery.Proofs.SurplusRuns
import FileDelivery.Proofs.Tables
import FileDelivery.Proofs.TaskOffsets
import FileDelivery.Proofs.TaskPages
import FileDelivery.Proofs.TenantHandlers
import FileDelivery.Proofs.TenantIsolation
import FileDelivery.Proofs.TenantRequests
import FileDelivery.Proofs.TenantResults
import FileDelivery.Proofs.TenantSlice
import FileDelivery.Proofs.TenantUpload
import FileDelivery.Proofs.TenantWorld
import FileDelivery.Proofs.UploadLimits
import FileDelivery.Proofs.UploadRuns
import FileDelivery.Proofs.WatchedRun
import FileDelivery.Proofs.WholeFiles
import FileDelivery.Proofs.WholeUpload
import FileDelivery.Proofs.WorkerRecovery
import FileDelivery.Proofs.WorkspaceMapping
import FileDelivery.Proofs.WorkspaceReads
import FileDelivery.Worker.Concurrency
import FileDelivery.Worker.Group
import FileDelivery.Worker.Handling
import FileDelivery.Worker.Kafka
import FileDelivery.Worker.Limiter
import FileDelivery.Worker.Message
import FileDelivery.Worker.Pipeline
import FileDelivery.Worker.Schema
import FileDelivery.Worker.Source
