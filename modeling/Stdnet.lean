import Stdnet.Library.ListEntries
import Stdnet.Library.SwapRemove
import Stdnet.EventLoop
import Stdnet.CallStack
import Stdnet.PollRegistrations
import Stdnet.Race
import Stdnet.Readiness
import Stdnet.Interchange
import Stdnet.SocketObjects
import Stdnet.Conservation
import Stdnet.Lifetime
import Stdnet.SocketIdentity
import Stdnet.Cancellation
import Stdnet.ContainerGrowth
import Stdnet.SocketRelease
import Stdnet.Acceptor
import Stdnet.StreamSockets
import Stdnet.Timers
import Stdnet.PollProgress
import Stdnet.PollDispatch
import Stdnet.Endpoint
import Stdnet.ConnectOutcome
import Stdnet.EndpointLengths
import Stdnet.Senders
import Stdnet.AccuServer
import Stdnet.EchoMain
