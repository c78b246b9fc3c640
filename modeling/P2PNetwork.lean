import P2PNetwork.Lib.Run
import P2PNetwork.Lib.TaskBoard
import P2PNetwork.Lib.BlockFile
import P2PNetwork.Lib.FieldDecoder
import P2PNetwork.Lib.KeyedList
import P2PNetwork.Shared.GeneralTypes
import P2PNetwork.Shared.TcpMessage
import P2PNetwork.Shared.Torrent
import P2PNetwork.Shared.SharedUtils
import P2PNetwork.Client.File.File
import P2PNetwork.Client.File.FileManager
import P2PNetwork.Client.File.Reassembly
import P2PNetwork.Client.Download.DownloadWorker
import P2PNetwork.Client.Download.Ownership
import P2PNetwork.Client.Networking.ResponderThread
import P2PNetwork.Client.Download.Completion
import P2PNetwork.Client.Download.Schedule
import P2PNetwork.Server.Database
import P2PNetwork.Server.TrackerThread
import P2PNetwork.Server.Registry
import P2PNetwork.Server.NewTorrent
import P2PNetwork.Client.Networking.BaseSocket
import P2PNetwork.Client.Networking.SSocket
import P2PNetwork.Server.Endpoints
import P2PNetwork.Client.Networking.CSocket
import P2PNetwork.Shared.ReceiveLoop
import P2PNetwork.Isolation
import P2PNetwork.Client.File.Segmentation
import P2PNetwork.Client.Database.Database
import P2PNetwork.Client.Download.DownloadManager
import P2PNetwork.Client.Download.RemoteIndices
import P2PNetwork.Client.File.StoreFrame
import P2PNetwork.Client.Download.Storing
import P2PNetwork.Client.Download.Cleanup
import P2PNetwork.Client.File.Locks
import P2PNetwork.Client.File.Exclusion
import P2PNetwork.Client.File.Wakeup
import P2PNetwork.Lib.ByteStream
import P2PNetwork.Shared.TorrentFile
import P2PNetwork.Client.Database.Persistence
import P2PNetwork.Lib.ReaderWriter
import P2PNetwork.Lib.Probing
import P2PNetwork.Lib.LockDiscipline
import P2PNetwork.Server.Locking
import P2PNetwork.Lib.CString
import P2PNetwork.Client.Networking.Replies
import P2PNetwork.Client.File.Release
import P2PNetwork.Client.File.ReadCounts
import P2PNetwork.Client.Download.Workers
import P2PNetwork.Server.Salting
import P2PNetwork.Server.Addresses
import P2PNetwork.Shared.TorrentFormat
import P2PNetwork.Client.File.Unlocking
import P2PNetwork.Client.File.SegmentReads
import P2PNetwork.Client.Networking.Timeout
import P2PNetwork.Server.Exchanges
import P2PNetwork.Client.Networking.Failures
import P2PNetwork.Client.Database.RecordedPaths
import P2PNetwork.Client.Database.Loading
import P2PNetwork.Lib.SharedMutex
import P2PNetwork.Server.Blocking
import P2PNetwork.Shared.AcceptLoop
import P2PNetwork.Server.Interleaving
import P2PNetwork.Lib.FormattedInput
import P2PNetwork.Client.Main
import P2PNetwork.Client.File.Starvation
import P2PNetwork.Client.File.Mutexes
import P2PNetwork.Lib.LockOrder
import P2PNetwork.Client.File.CriticalSections
import P2PNetwork.Client.File.Reduction
import P2PNetwork.Client.File.Realization
import P2PNetwork.Lib.Proto3Writing
import P2PNetwork.Shared.Serialization
import P2PNetwork.Client.Download.Termination
import P2PNetwork.Conversation
import P2PNetwork.Client.Download.Copies
import P2PNetwork.Lib.Programs
import P2PNetwork.Server.Programs
