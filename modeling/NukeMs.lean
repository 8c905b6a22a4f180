import NukeMs.Reversal
import NukeMs.Runs
import NukeMs.OutputIterator
import NukeMs.ByteOrder
import NukeMs.MessageLayer
import NukeMs.NearTypes
import NukeMs.Framing
import NukeMs.ReceiveHeader
import NukeMs.Asio
import NukeMs.ReferenceCounter
import NukeMs.Server
import NukeMs.ServerTrace
import NukeMs.ServerFrames
import NukeMs.ServerBroadcast
import NukeMs.ServerAccept
import NukeMs.ServerSteps
import NukeMs.PeerOperations
import NukeMs.FaithfulBroadcast
import NukeMs.Deletion
import NukeMs.PeerLifecycle
import NukeMs.Containment
import NukeMs.ClientNode
import NukeMs.SenderFraming
import NukeMs.ComposedWrites
import NukeMs.ConnectedClient
import NukeMs.OneProtocol
import NukeMs.SessionIsolation
import NukeMs.StatusReports
import NukeMs.UniqueReading
import NukeMs.WholePackets
import NukeMs.Chunks
import NukeMs.Disconnection
import NukeMs.EventProtocol
import NukeMs.MessageIds
import NukeMs.Negotiation
import NukeMs.OneReceive
import NukeMs.Portability
import NukeMs.Serialisation
import NukeMs.StreamFraming
import NukeMs.Teardown
import NukeMs.ClientSession
import NukeMs.Draining
import NukeMs.EndToEnd
import NukeMs.ExactSizes
import NukeMs.Reading
import NukeMs.RelayedStreams
import NukeMs.ReadPositions
import NukeMs.InterleavedReads
import NukeMs.Decoding
import NukeMs.Duplex
import NukeMs.PacketHandling
import NukeMs.Copying
import NukeMs.ClientCalls
import NukeMs.DestinationParsing
import NukeMs.ConnectionTrial
import NukeMs.ConnectionIds
import NukeMs.CountedReferences
import NukeMs.TotalOrder
import NukeMs.BroadcastRoom
import NukeMs.Words
import NukeMs.HeaderBuffers
import NukeMs.MainFrame
import NukeMs.Commands
import NukeMs.Signals
import NukeMs.Transcript
import NukeMs.StatusLine
import NukeMs.Conversation
import NukeMs.InterleavedReads
