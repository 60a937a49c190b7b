import WsIo.Async.System
import WsIo.Protocol.Routing
import WsIo.Server.Handshake
import WsIo.Server.Exchange
import WsIo.Client.Exchange
import WsIo.Protocol.CloseFrame
import WsIo.Protocol.Pair
import WsIo.Protocol.Delivery
import WsIo.Protocol.ReadyOrder
import WsIo.Protocol.OneWay
import WsIo.Protocol.Transparency
import WsIo.Server.Registration
import WsIo.Server.Ending
import WsIo.Server.CloseAll
import WsIo.Server.TaskSet
import WsIo.Server.TaskLock
import WsIo.Server.Completion
import WsIo.Server.JoinedRooms
import WsIo.Server.Registries
import WsIo.Server.RoomCalls
import WsIo.Server.Namespaces
import WsIo.Server.Broadcast
import WsIo.Core.Dispatch
import WsIo.Core.RegistryCalls
import WsIo.Client.Drain
import WsIo.Client.Wakeup
import WsIo.Client.Cleanup
import WsIo.Client.Teardown
import WsIo.Client.Completion
import WsIo.Client.Orphan
