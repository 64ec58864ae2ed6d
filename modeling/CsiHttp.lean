import CsiHttp.Server.MessageAssembly
import CsiHttp.Server.Dispatch
import CsiHttp.Server.ReplyBuffer
import CsiHttp.Server.ReplyWire
import CsiHttp.Server.Independence
import CsiHttp.Server.Rejection
import CsiHttp.Server.Trailers
import CsiHttp.Server.Server
import CsiHttp.Server.IdHeader
import CsiHttp.Server.Timeout
import CsiHttp.Server.HttpRequests
import CsiHttp.Server.HttpsExchange
import CsiHttp.Client.Completion
import CsiHttp.Client.Readiness
import CsiHttp.Server.Routing
import CsiHttp.Server.IdCache
import CsiHttp.Server.ReplyFraming
import CsiHttp.Client.Upload
import CsiHttp.Client.SocketTable
import CsiHttp.Server.Deadline
import CsiHttp.Server.ReplyHeaders
import CsiHttp.Server.RequestCounts
import CsiHttp.Client.TimerContract
import CsiHttp.Server.LoggedMethod
import CsiHttp.Lib.Schedules
import CsiHttp.Service.Handlers
import CsiHttp.Service.Lifetime
import CsiHttp.Service.Interleavings
import CsiHttp.Client.Ownership
import CsiHttp.Client.KeepAlive
import CsiHttp.Service.Streams
import CsiHttp.Service.Settling
import CsiHttp.Samples.AvroHttpServer
import CsiHttp.Samples.JsonSpiritHttpServer
