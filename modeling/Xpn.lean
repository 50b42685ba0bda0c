import Xpn.Proofs.ReadAfterWrite
import Xpn.Proofs.ExpandMoves
import Xpn.Proofs.MetadataProtocol
import Xpn.Proofs.FileTable
import Xpn.Proofs.Namespace
import Xpn.Proofs.PathTransport
import Xpn.Proofs.RoundTrip
import Xpn.Proofs.Rebuild
import Xpn.Proofs.Shrinking
import Xpn.Proofs.WorkersPool
import Xpn.Proofs.WorkersOndemand
import Xpn.Proofs.Listing
import Xpn.Proofs.ClientCalls
import Xpn.Proofs.ClientFailures
import Xpn.Tools
import Xpn.Proofs.Transfer
import Xpn.Proofs.BlockInverse
import Xpn.Proofs.MetadataServers
import Xpn.Proofs.Continuity
import Xpn.Proofs.ElementaryRequests
import Xpn.Proofs.Positions
import Xpn.Proofs.SlotAllocation
import Xpn.Proofs.Teardown
import Xpn.Proofs.DescriptorArgs
import Xpn.Proofs.Handles
import Xpn.Proofs.Truncate
import Xpn.Proofs.WriteCount
import Xpn.Proofs.Append
import Xpn.Proofs.BypassTables
import Xpn.Proofs.BypassDirs
import Xpn.Proofs.WriteOutcomes
import Xpn.Proofs.ReadAgreement
import Xpn.Proofs.PathResolution
import Xpn.Proofs.SendRounds
import Xpn.Proofs.ServerReplies
import Xpn.Proofs.PathReception
import Xpn.Proofs.MetadataPlaces
import Xpn.ConfReader
import Xpn.Proofs.ConfNumbers
import Xpn.Proofs.ConfRoundTrip
import Xpn.Proofs.ConfComments
import Xpn.InitPartition
import Xpn.Proofs.InitPartition
import Xpn.Proofs.InitLeftovers
import Xpn.Proofs.ConfReader
import Xpn.Proofs.MathMisc
import Xpn.Proofs.TransferLoops
import Xpn.Proofs.Mkpath
import Xpn.UrlStr
import Xpn.DTable
import Xpn.DArray
import Xpn.TokenBuffers
import Xpn.OperationMatrix
import Xpn.MqServerComm
import Xpn.Proofs.UrlStr
import Xpn.Proofs.DTable
import Xpn.Proofs.DArray
import Xpn.Proofs.TokenBuffers
import Xpn.Proofs.OperationMatrix
import Xpn.Proofs.MqServerComm
import Xpn.Proofs.XpnProxyQueue
import Xpn.Proofs.XpnProxyResults
import Xpn.Proofs.MqServerQueue
import Xpn.Proofs.Sessions
import Xpn.Proofs.Framing
import Xpn.Proofs.Descriptor
import Xpn.Proofs.ShrinkMoves
import Xpn.Proofs.WriteAgreement
import Xpn.Proofs.GroupedRows
