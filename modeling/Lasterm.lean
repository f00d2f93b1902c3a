import Lasterm.Files.SftpIsolation
import Lasterm.Files.SharedSftp
import Lasterm.Files.TempPaths
import Lasterm.Hub.Reconnection
import Lasterm.Hub.ClosedSessions
import Lasterm.Transfer.ReplaceSafety
import Lasterm.Agent.Restart
import Lasterm.Agent.SnapshotCut
import Lasterm.Agent.Isolation
import Lasterm.Hub.SendQueue
import Lasterm.Hub.SnapshotScheduler
import Lasterm.Hub.SpoolNumbers
import Lasterm.Hub.AttachPayload
import Lasterm.Hub.GcJudgement
import Lasterm.Hub.GcCollects
import Lasterm.Transfer.UploadStore
import Lasterm.Transfer.UploadWindows
import Lasterm.Transfer.UploadDropped
import Lasterm.Transfer.UploadQueued
import Lasterm.Hub.WriteLockViews
import Lasterm.Agent.Flow
import Lasterm.Agent.Delivery
import Lasterm.Agent.IdleExit
import Lasterm.Agent.BatchLoop
import Lasterm.Agent.Input
import Lasterm.Wire.HelloSeeker
import Lasterm.Web.LayoutTabs
import Lasterm.Hub.PromptRoutes
import Lasterm.Hub.QuitFence
import Lasterm.Transfer.UploadExchange
import Lasterm.Hub.Elevation
import Lasterm.Hub.Starts
import Lasterm.Hub.Retirement
import Lasterm.Hub.SocketRelease
import Lasterm.Agent.SnapshotSeq
import Lasterm.Agent.Shutdown
import Lasterm.Desktop.QuitGate
import Lasterm.Files.ExpandVars
import Lasterm.Web.UploadConverges
import Lasterm.Hub.SpawnEnvironment
import Lasterm.Hub.HostKeys
import Lasterm.Transfer.UploadItemsBuilt
import Lasterm.Transfer.Placement
import Lasterm.Transfer.UploadLeftovers
import Lasterm.Agent.AwayBounds
import Lasterm.Agent.StripDsr
import Lasterm.Web.ConflictCards
import Lasterm.Hub.SshConfig
import Lasterm.Hub.SshScopes
import Lasterm.Hub.Cascade
import Lasterm.Web.EndWatch
import Lasterm.Agent.HandleMessage
import Lasterm.Agent.EnvironmentEntries
import Lasterm.Web.PaneGeometry
import Lasterm.Hub.CorsOrigins
import Lasterm.Hub.PairRateLimits
import Lasterm.Agent.CwdReports
import Lasterm.Hub.ConfigReload
import Lasterm.Hub.Quoting
