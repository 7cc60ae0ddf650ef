import TinyHttpServer.Base.FourHeapMachine
import TinyHttpServer.Base.FourHeapSiftOrder
import TinyHttpServer.Base.FourHeapOrder
import TinyHttpServer.Base.FourHeapGetK
import TinyHttpServer.Base.FourHeapDrain
import TinyHttpServer.Base.TimerQueueNoRun
import TinyHttpServer.Base.TimerQueueReadiness
import TinyHttpServer.Base.TimerQueueIds
import TinyHttpServer.Base.TimerQueuePeriod
import TinyHttpServer.Base.BufferGrowth
import TinyHttpServer.Base.LogStop
import TinyHttpServer.Base.LogLine
import TinyHttpServer.Event.Acceptor
import TinyHttpServer.Event.EpollerMirror
import TinyHttpServer.Event.EventLoop
import TinyHttpServer.Server.EventLoopThread
import TinyHttpServer.Server.TcpConnectionShutdown
import TinyHttpServer.Server.TcpConnectionRevive
import TinyHttpServer.Server.TcpConnectionSend
import TinyHttpServer.Server.TcpConnectionCallbacks
import TinyHttpServer.Server.TcpServerThreads
import TinyHttpServer.Server.ThreadPoolProgress
import TinyHttpServer.Http.HttpStream
import TinyHttpServer.Http.HttpServer
import TinyHttpServer.Http.HttpProcess
import TinyHttpServer.Http.HttpFile
import TinyHttpServer.Http.HttpContainment
import TinyHttpServer.Http.UserVerifyRegister
import TinyHttpServer.Http.FormAccess
import TinyHttpServer.Http.FormEncoding
import TinyHttpServer.Http.FormCompose
import TinyHttpServer.Http.HttpRoundTrip
import TinyHttpServer.Http.HttpTotal
import TinyHttpServer.Http.HttpMalformed
import TinyHttpServer.Http.UserVerifyLoad
import TinyHttpServer.Http.UserVerifyText
import TinyHttpServer.Http.HttpMapping
import TinyHttpServer.Http.HttpServiceRuns
import TinyHttpServer.Sql.SqlConnPoolClose
