import Cdesktop.Cancellation
import Cdesktop.MeteredGate
import Cdesktop.AllowOnce
import Cdesktop.MeteredBookkeeping
import Cdesktop.Admission
import Cdesktop.Recovery
import Cdesktop.LogFollower
import Cdesktop.LogCapture
import Cdesktop.LogMigration
import Cdesktop.ToolApprovalOutcome
import Cdesktop.ToolApprovalStream
import Cdesktop.ManagedTaskFinal
import Cdesktop.StopOperation
import Cdesktop.RelayReplay
import Cdesktop.RoutineNextRun
import Cdesktop.RoutineSettled
import Cdesktop.TrustedKeysRegistry
import Cdesktop.WorktreeCleanup
import Cdesktop.LegacyMigrationRun
import Cdesktop.MergeChangesSound
import Cdesktop.ClaudeLogsIndexed
import Cdesktop.ExecutionStopEnds
import Cdesktop.LogProvenance
import Cdesktop.PrMonitorSound
import Cdesktop.PrSync
import Cdesktop.SessionResetSound
import Cdesktop.WorkspaceExpirySound
import Cdesktop.AcpRunSound
import Cdesktop.CodexFeedback
import Cdesktop.ConfigFileSound
import Cdesktop.RemoteClientSound
import Cdesktop.WebRtcClientSound
import Cdesktop.ExecutionStartSound
import Cdesktop.RedactSound
import Cdesktop.ScheduleSearch
import Cdesktop.Utf8Chunks
import Cdesktop.DiffStreamSound
import Cdesktop.SquashMergeSound
import Cdesktop.WorkspaceCreation
import Cdesktop.AggregateEntries
import Cdesktop.SessionGridSound
import Cdesktop.JsonRpcPeer
import Cdesktop.ForkRateBreaker
import Cdesktop.McpConfig
import Cdesktop.StreamEntries
import Cdesktop.ClaudeStream
import Cdesktop.FileSearch
import Cdesktop.FileTree
import Cdesktop.FilesystemWatcherSound
import Cdesktop.ExpiredWorkspaces
import Cdesktop.Profiles
import Cdesktop.AcpStderr
import Cdesktop.CreateDiff
import Cdesktop.PageInjection
import Cdesktop.AcpEntriesSound
import Cdesktop.DurableFs
import Cdesktop.EntryIndex
import Cdesktop.CommentAnnotations
import Cdesktop.TokenManager
import Cdesktop.WsIo
import Cdesktop.ProviderModel
import Cdesktop.RelayPairing
