import Iotmp.Lib.SortedMap
import Iotmp.Lib.Leb128
import Iotmp.Lib.Run
import Iotmp.Core.Json
import Iotmp.Core.Adapters
import Iotmp.Core.Pson
import Iotmp.Core.PsonBytes
import Iotmp.Core.PsonRoundTrip
import Iotmp.Core.PsonReads
import Iotmp.Core.Message
import Iotmp.Core.Codec
import Iotmp.Core.CodecRoundTrip
import Iotmp.Core.Writers
import Iotmp.Core.Logger
import Iotmp.Client.ReadMessage
import Iotmp.Core.Resource
import Iotmp.Client.State
import Iotmp.Client.StreamManager
import Iotmp.Client.Requests
import Iotmp.Client.Answers
import Iotmp.Client.Sessions
import Iotmp.Client.SessionRuns
import Iotmp.Lib.Timer
import Iotmp.Lib.FileTree
import Iotmp.Fs.Transfer
import Iotmp.Fs.Download
import Iotmp.Fs.DownloadRuns
import Iotmp.Fs.Upload
import Iotmp.Fs.UploadRuns
import Iotmp.Fs.Path
import Iotmp.Fs.Disk
import Iotmp.Fs.Lookups
import Iotmp.Fs.Filesystem
import Iotmp.Fs.Confinement
import Iotmp.Fs.Deletion
import Iotmp.Client.WritePath
import Iotmp.Client.WriteQueue
import Iotmp.Client.WriteRuns
import Iotmp.Client.Responses
import Iotmp.Client.References
import Iotmp.Client.Dereferences
import Iotmp.Client.LiveStreams
import Iotmp.Client.Connections
import Iotmp.Fs.UploadAcks
import Iotmp.Fs.DownloadBytes
import Iotmp.Fs.DownloadWindow
import Iotmp.Lib.Custody
import Iotmp.Client.AfterResponse
import Iotmp.Client.Events
import Iotmp.Client.EventIds
import Iotmp.Client.PathParameters
import Iotmp.Lib.Ownership
import Iotmp.Fs.Ownership
import Iotmp.Client.FrameStream
import Iotmp.Core.DecodeBounds
import Iotmp.Core.LoggedText
import Iotmp.Client.Unprintable
import Iotmp.Core.WireFields
import Iotmp.Client.Routing
import Iotmp.Client.StreamIds
import Iotmp.Lib.PathTemplate
import Iotmp.Client.PathPatterns
import Iotmp.Client.LiteralRoutes
import Iotmp.Core.SelfDelimiting
import Iotmp.Core.ExactIntegers
import Iotmp.Client.IntervalLoop
import Iotmp.Client.StartAnswers
import Iotmp.Lib.FileTreeChanges
import Iotmp.Fs.InlinePut
import Iotmp.Fs.Move
import Iotmp.Fs.Overwrite
import Iotmp.Lib.Guarded
import Iotmp.Cmd.Exec
import Iotmp.Cmd.ExecProgress
import Iotmp.Cmd.StreamSession
import Iotmp.Cmd.FrameProtocol
import Iotmp.Fs.PlainPaths
import Iotmp.Lib.BinaryFloat
import Iotmp.Core.GetValue
import Iotmp.Client.StreamClock
import Iotmp.Client.StreamEnabled
import Iotmp.Cmd.ExecOutcome
import Iotmp.Lib.SerialWriter
import Iotmp.Relay.RelaySession
import Iotmp.Relay.RelayRuns
import Iotmp.Cmd.InputRuns
import Iotmp.Client.DataFrames
import Iotmp.Fs.TransferLink
import Iotmp.Fs.LinkSafety
import Iotmp.Fs.LinkProgress
import Iotmp.Client.RunLoop
import Iotmp.Client.RunLoopOrder
import Iotmp.Client.RunLoopLife
import Iotmp.Client.MessageTransport
import Iotmp.Client.ServerCalls
import Iotmp.Lib.FileTreeEdits
import Iotmp.Fs.DiskEdits
import Iotmp.Fs.Store
import Iotmp.Fs.StoreRuns
import Iotmp.Fs.StoreConfinement
import Iotmp.Fs.UploadStore
import Iotmp.Fs.FileBytes
