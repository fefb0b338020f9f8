import Sponge.Words
import Sponge.Runs
import Sponge.Circular
import Sponge.Excerpts
import Sponge.ByteStream
import Sponge.WrappingIntegers
import Sponge.TCPSegment
import Sponge.StreamReassembler
import Sponge.ChunkMerge
import Sponge.Reassembly
import Sponge.Assembly
import Sponge.PerByte
import Sponge.ReassemblyRefinement
import Sponge.ReassemblyBound
import Sponge.TCPReceiver
import Sponge.AcknoAdvance
import Sponge.TCPSender
import Sponge.Tiling
import Sponge.SenderLoop
import Sponge.SenderQueue
import Sponge.SenderBooks
import Sponge.SenderRuns
import Sponge.SenderWindow
import Sponge.SenderTimer
import Sponge.SenderOutput
import Sponge.TCPConnection
import Sponge.TCPState
import Sponge.ConnectionCalls
import Sponge.ConnectionProgress
import Sponge.Listening
import Sponge.Link
import Sponge.LinkCalls
import Sponge.Network
import Sponge.Delivery
import Sponge.Shutdown
import Sponge.AdvertisedWindow
import Sponge.ConnectionStates
import Sponge.Handshake
import Sponge.NetParser
import Sponge.IPv4Datagram
import Sponge.TCPOverIP
import Sponge.ARPMessage
import Sponge.NetworkInterface
import Sponge.DatagramOrder
import Sponge.Router
import Sponge.RouterSafety
import Sponge.Lan
import Sponge.BoundedQueue
import Sponge.StreamQueue
import Sponge.AdapterPeer
import Sponge.WindowFill
import Sponge.WindowUpdates
import Sponge.RetryTimeout
import Sponge.Backoff
import Sponge.SilentPeer
import Sponge.OutOfWindow
import Sponge.LongestMatch
import Sponge.LongestPrefix
import Sponge.FrameCodec
import Sponge.PacketCodec
import Sponge.PacketAcceptance
import Sponge.CheckedParsers
import Sponge.ArpRequests
import Sponge.ArpLearning
import Sponge.BufferLists
import Sponge.StreamEnd
import Sponge.WordStream
import Sponge.EmptyChunks
import Sponge.Record
import Sponge.Recovery
import Sponge.EventLoop
import Sponge.Descriptors
import Sponge.StreamCopy
import Sponge.Outgoing
import Sponge.SocketThread
import Sponge.SocketPair
import Sponge.AdapterPackets
import Sponge.SocketPackets
import Sponge.OfficialStates
import Sponge.StateRuns
