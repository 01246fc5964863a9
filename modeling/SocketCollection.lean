import SocketCollection.OutQueueRefinement
import SocketCollection.OutQueueExpiry
import SocketCollection.ReaderSegmentation
import SocketCollection.ReaderRetry
import SocketCollection.ReaderStream
import SocketCollection.ReaderContext
import SocketCollection.TcpIntegrity
import SocketCollection.TcpLimit
import SocketCollection.TcpOrder
import SocketCollection.TcpEndToEnd
import SocketCollection.TcpRead
import SocketCollection.UdpMixedReceiver
import SocketCollection.UdpAgreement
import SocketCollection.UdpSender
import SocketCollection.UdpRoundTrip
import SocketCollection.SendOrder
import SocketCollection.FlushTermination
import SocketCollection.WriteResult
import SocketCollection.TcpConnection
import SocketCollection.TcpCatchUp
import SocketCollection.TcpPoisoned
import SocketCollection.OutQueueWaiting
import SocketCollection.TcpUpgrade
import SocketCollection.UdpNetwork
import SocketCollection.UdpApart
import SocketCollection.SocketErrors
