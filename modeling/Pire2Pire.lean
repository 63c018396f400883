import Pire2Pire.Blocks.HoledCache
import Pire2Pire.Blocks.Ranges
import Pire2Pire.Blocks.Write
import Pire2Pire.Client.Prompt
import Pire2Pire.Client.Responses
import Pire2Pire.Conf
import Pire2Pire.ConfFile
import Pire2Pire.Connections.Capacity
import Pire2Pire.Connections.Commands
import Pire2Pire.Connections.Connect
import Pire2Pire.Connections.Decoding
import Pire2Pire.Connections.Exchange
import Pire2Pire.Connections.Neighbourhood
import Pire2Pire.Connections.Neighbours
import Pire2Pire.Connections.Network
import Pire2Pire.Connections.Port
import Pire2Pire.Connections.Raw
import Pire2Pire.Connections.Replies
import Pire2Pire.Connections.SharedSocket
import Pire2Pire.FileCache
import Pire2Pire.FileCache.Concurrent
import Pire2Pire.FileCache.Linearization
import Pire2Pire.FileCache.Map
import Pire2Pire.FileCache.Ownership
import Pire2Pire.HoleMap
import Pire2Pire.Library.Allocation
import Pire2Pire.Library.BlockHash
import Pire2Pire.Library.CString
import Pire2Pire.Library.Chunks
import Pire2Pire.Library.CopyLoop
import Pire2Pire.Library.Copying
import Pire2Pire.Library.DoublyLinked
import Pire2Pire.Library.Heap
import Pire2Pire.Library.Intervals
import Pire2Pire.Library.LockOrder
import Pire2Pire.Library.Overriding
import Pire2Pire.Library.Runs
import Pire2Pire.Library.Scanf
import Pire2Pire.Library.SharedVariables
import Pire2Pire.Library.StreamingHash
import Pire2Pire.Md5.Algorithm
import Pire2Pire.Md5.Digest
import Pire2Pire.Md5.Rfc
import Pire2Pire.Md5.Streaming
import Pire2Pire.Protocol.CmdGrammar
import Pire2Pire.Protocol.CmdOwnership
import Pire2Pire.Protocol.CmdParser
import Pire2Pire.Protocol.Framing
import Pire2Pire.Protocol.Lines
import Pire2Pire.Protocol.Logger
import Pire2Pire.Protocol.OptionLoop
import Pire2Pire.Protocol.SendLock
import Pire2Pire.Protocol.Splitter
import Pire2Pire.Protocol.Transport
import Pire2Pire.Registry
import Pire2Pire.Requests.Cancellation
import Pire2Pire.Requests.Deadlock
import Pire2Pire.Requests.Kill
import Pire2Pire.Requests.Lifetime
import Pire2Pire.Requests.Ownership
import Pire2Pire.Requests.Places
import Pire2Pire.Requests.Quota
import Pire2Pire.Requests.RequestList
import Pire2Pire.Requests.Teardown
import Pire2Pire.Requests.Threads
import Pire2Pire.ThreadPool.Flush
import Pire2Pire.ThreadPool.JobQueue
import Pire2Pire.ThreadPool.Wakeups
import Pire2Pire.ThreadPool.Workers
import Pire2Pire.Transfer.Announce
import Pire2Pire.Transfer.AskGet
import Pire2Pire.Transfer.DlFiles
import Pire2Pire.Transfer.Download
import Pire2Pire.Transfer.EndToEnd
import Pire2Pire.Transfer.Endings
import Pire2Pire.Transfer.Handshake
import Pire2Pire.Transfer.Interference
import Pire2Pire.Transfer.Lister
import Pire2Pire.Transfer.Messages
import Pire2Pire.Transfer.PartialDigest
import Pire2Pire.Transfer.Receiving
import Pire2Pire.Transfer.Resources
import Pire2Pire.Transfer.ServeGet
import Pire2Pire.Transfer.ShortSends
import Pire2Pire.Transfer.Upload
import Pire2Pire.Trunk.Dispatch
import Pire2Pire.Trunk.ExactlyOnce
import Pire2Pire.Trunk.FileCache
