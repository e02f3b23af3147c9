import ReliableUdp.Protocol.Detection
import ReliableUdp.Endpoint.CommandLine
import ReliableUdp.Endpoint.OutputSink
import ReliableUdp.Endpoint.PeerAddress
import ReliableUdp.Endpoint.ServerLedger
import ReliableUdp.Endpoint.ServerWatchdog
import ReliableUdp.Endpoint.TransferStop
import ReliableUdp.Endpoint.TimeWait
import ReliableUdp.Sender.CumulativeAck
import ReliableUdp.Session.FastRetransmit
import ReliableUdp.Session.HandshakeLoss
import ReliableUdp.Session.Isolation
import ReliableUdp.Endpoint.ExitStatus
import ReliableUdp.Session.ClientDialogue
import ReliableUdp.Session.ServerDialogue
import ReliableUdp.Session.Traffic
import ReliableUdp.Session.EndToEnd
import ReliableUdp.Session.FairCompletion
import ReliableUdp.Endpoint.Invocation
import ReliableUdp.Endpoint.WindowTimer
import ReliableUdp.Endpoint.StopRequest
import ReliableUdp.Protocol.Damage
