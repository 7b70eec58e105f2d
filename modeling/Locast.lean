import Locast.Auth.Resume
import Locast.Client.Rejections
import Locast.Client.PlaybackOrder
import Locast.Client.PeerIdentity
import Locast.Rooms.Eviction
import Locast.Rooms.Ownership
import Locast.Rooms.FeedInv
import Locast.Rooms.FeedOfRoom
import Locast.Server.Authorization
import Locast.Server.Grace
import Locast.Server.Isolation
import Locast.Server.Membership
import Locast.Server.RoomEnd
import Locast.Server.StoreFailure
import Locast.Server.Publication
import Locast.Server.RateLimit
import Locast.Server.Keepalive
import Locast.Server.RoomLogs
import Locast.Protocol.ByteBudget
import Locast.Protocol.RoundTrip
import Locast.Protocol.PartErrors
import Locast.Protocol.SignedBytes
import Locast.Transfer.Agreement
import Locast.Transfer.Placement
import Locast.Library.Completion
import Locast.Library.LibraryPath
import Locast.Library.LocastUrl
import Locast.Library.RangeServing
import Locast.Library.Scan
import Locast.Library.Reconcile
import Locast.Library.ScanRuns
import Locast.Rooms.PlaybackLog
import Locast.Client.DrawingStore
import Locast.Client.CommandLog
import Locast.Client.Watching
import Locast.Client.ManifestRaces
import Locast.Client.TrustAnchor
import Locast.Client.SignalingFrames
import Locast.Client.PlaybackMarks
import Locast.Client.Restarts
import Locast.Client.ClockSkew
import Locast.Client.InviteLink
import Locast.Client.PacedSend
import Locast.Client.GapBuffer
import Locast.Client.LaserSender
import Locast.Client.LaserRuns
import Locast.Client.HostNativeControls
import Locast.Client.DrawingRuns
import Locast.Client.StrokeRenderer
import Locast.Client.SharedMediaRuns
import Locast.Transfer.WireCodec
import Locast.Transfer.SourceFailures
import Locast.Transfer.SharedChannel
import Locast.Transfer.Reassembly
import Locast.Transfer.Partition
import Locast.Transfer.ChunkPlan
import Locast.Transfer.TransferRegistry
import Locast.Transfer.DownloadEvents
import Locast.Transfer.MessagePasses
import Locast.Transfer.StateMachine
import Locast.Transfer.TransferredBytes
import Locast.Lib.MsgPack
import Locast.Lib.StrSlice
import Locast.Lib.Unicode
import Locast.Lib.Checked
import Locast.Subtitles.Gate
import Locast.Subtitles.Rendering
import Locast.Subtitles.Written
import Locast.Subtitles.Stamps
import Locast.Subtitles.Blocks
import Locast.Subtitles.Events
import Locast.Subtitles.Writer
import Locast.Subtitles.RoundTrip
import Locast.Subtitles.Breaches
import Locast.Subtitles.Scans
import Locast.Subtitles.Markup
import Locast.Transfer.ChunkLife
