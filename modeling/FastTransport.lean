import FastTransport.Lib.Runs
import FastTransport.Lib.Lists
import FastTransport.Lib.Bytes
import FastTransport.Lib.Tally
import FastTransport.Lib.Owners
import FastTransport.Lib.Transparent
import FastTransport.Lib.Faults
import FastTransport.Lib.Packing
import FastTransport.Lib.Recency
import FastTransport.Lib.PathTree
import FastTransport.Lib.SharedPtr
import FastTransport.Lib.ForestWalk
import FastTransport.Memory.PoolBooks
import FastTransport.Containers.MultiListRefinement
import FastTransport.Containers.IteratorOperators
import FastTransport.Containers.MovedIterators
import FastTransport.Protocol.Packet
import FastTransport.Protocol.MessageFrame
import FastTransport.Protocol.MessageRoundTrip
import FastTransport.Protocol.ReliableDelivery
import FastTransport.Protocol.UDPQueue
import FastTransport.Protocol.Station
import FastTransport.Protocol.Duplex
import FastTransport.Protocol.PayloadReads
import FastTransport.Protocol.DataState
import FastTransport.Protocol.FastTransportContext
import FastTransport.Protocol.Handshake
import FastTransport.Protocol.Endpoints
import FastTransport.Protocol.ReceiveBuffers
import FastTransport.Protocol.SelectiveAcks
import FastTransport.Protocol.Reassembly
import FastTransport.Protocol.InFlightHistory
import FastTransport.Protocol.SendOrder
import FastTransport.Protocol.SampleStats
import FastTransport.Protocol.TimeRangedStats
import FastTransport.Protocol.StatsWindow
import FastTransport.Protocol.SpeedController
import FastTransport.Protocol.RateBudget
import FastTransport.Protocol.ReceivedBuffer
import FastTransport.Protocol.Socket
import FastTransport.Protocol.SizedReceive
import FastTransport.Protocol.PacketSplices
import FastTransport.Protocol.MovedMessages
import FastTransport.Protocol.WriterLedger
import FastTransport.Protocol.ConnectionWriter
import FastTransport.Protocol.ConnectionReader
import FastTransport.Protocol.StreamExchange
import FastTransport.TaskQueue.MessageTypeReadJob
import FastTransport.TaskQueue.Messages
import FastTransport.TaskQueue.MessageExchange
import FastTransport.TaskQueue.ResponseReadDirJob
import FastTransport.TaskQueue.TaskScheduler
import FastTransport.TaskQueue.ReceivedPackets
import FastTransport.TaskQueue.ResponseReadFileJob
import FastTransport.TaskQueue.DirectoryPackets
import FastTransport.FileSystem.Leaf
import FastTransport.FileSystem.LeafSerializer
import FastTransport.FileSystem.Ranges
import FastTransport.FileSystem.RangeOrder
import FastTransport.FileSystem.LeafContent
import FastTransport.FileSystem.PinnedPackets
import FastTransport.FileSystem.RangePins
import FastTransport.FileSystem.FileCache
import FastTransport.FileSystem.InodeIndex
import FastTransport.TaskQueue.NotifyInvalEntryJob
import FastTransport.FileSystem.InotifyWatcher
import FastTransport.FileSystem.LeafOwnership
import FastTransport.FileSystem.ParentPointers
import FastTransport.TaskQueue.ServerAttributes
import FastTransport.TaskQueue.MergeIn
import FastTransport.FileSystem.LookupCounts
import FastTransport.FileSystem.ForgetThreads
import FastTransport.FileSystem.ServerCounts
import FastTransport.FileCache.ReadCorrectness
import FastTransport.FileCache.CachePaths
import FastTransport.FileCache.AnsweredOnce
import FastTransport.FileCache.Accounting
import FastTransport.FileCache.LeafLifetime
import FastTransport.FileCache.Shutdown
import FastTransport.FileCache.FreshBytes
import FastTransport.FileCache.Victims
import FastTransport.FileCache.WriteBack
import FastTransport.FileCache.StatusIndices
import FastTransport.Protocol.Recovery
import FastTransport.Containers.LockedList
import FastTransport.TaskQueue.Queue
import FastTransport.TaskQueue.RemoteRead
import FastTransport.FileCache.RemoteReads
import FastTransport.FileSystem.HandleLifetimes
import FastTransport.Protocol.Datagrams
