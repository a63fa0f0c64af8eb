import Zhengqi.Lib.Run
import Zhengqi.Lib.Slice
import Zhengqi.Lib.OrdSet
import Zhengqi.Lib.Calendar
import Zhengqi.Lib.UpperBound
import Zhengqi.Lib.Shift
import Zhengqi.Lib.ByteReader
import Zhengqi.Lib.Monitor
import Zhengqi.Lib.Numeral
import Zhengqi.Lib.Endian
import Zhengqi.Lib.Section
import Zhengqi.Lib.Valve
import Zhengqi.Fault
import Zhengqi.Buffer
import Zhengqi.BufferSound
import Zhengqi.BufferQueue
import Zhengqi.BufferInt
import Zhengqi.BufferIntSound
import Zhengqi.BufferStorage
import Zhengqi.BufferStorageSound
import Zhengqi.Channel
import Zhengqi.ChannelTable
import Zhengqi.EPollPoller
import Zhengqi.EPollPollerSound
import Zhengqi.EPollMirrorSound
import Zhengqi.PollPoller
import Zhengqi.PollPollerSound
import Zhengqi.PollersSound
import Zhengqi.TcpConnection
import Zhengqi.TcpConnectionSound
import Zhengqi.OutputSound
import Zhengqi.ConnectionLoop
import Zhengqi.ConnectionLoopSound
import Zhengqi.ShutdownSound
import Zhengqi.CloseSound
import Zhengqi.CloseOnceSound
import Zhengqi.DestroySound
import Zhengqi.Timestamp
import Zhengqi.TimerQueue
import Zhengqi.TimerQueueSound
import Zhengqi.TimerRunSound
import Zhengqi.TimerCancelSound
import Zhengqi.Timerfd
import Zhengqi.TimerfdSound
import Zhengqi.TimerFiringSound
import Zhengqi.TimerIdSound
import Zhengqi.TimerThreads
import Zhengqi.TimerThreadsSound
import Zhengqi.EventLoop
import Zhengqi.EventLoopSound
import Zhengqi.EventLoopThread
import Zhengqi.EventLoopThreadSound
import Zhengqi.SendThreads
import Zhengqi.SendThreadsSound
import Zhengqi.Text
import Zhengqi.HttpContext
import Zhengqi.HttpServer
import Zhengqi.HttpContextSound
import Zhengqi.HttpServerSound
import Zhengqi.HttpRejectSound
import Zhengqi.HttpText
import Zhengqi.HttpRequestLineSound
import Zhengqi.HttpLoopSound
import Zhengqi.HttpSegmentsSound
import Zhengqi.HttpRoundTripSound
import Zhengqi.HttpPipelineSound
import Zhengqi.HttpResponseSound
import Zhengqi.Connection
import Zhengqi.TcpServer
import Zhengqi.Connector
import Zhengqi.ConnectorLoop
import Zhengqi.ConnectorSound
import Zhengqi.TcpClient
import Zhengqi.SocketSound
import Zhengqi.ServerLog
import Zhengqi.ServerStages
import Zhengqi.ServerLifeSound
import Zhengqi.ServerEndSound
import Zhengqi.ServerPool
import Zhengqi.ServerPoolSound
import Zhengqi.LogStream
import Zhengqi.AsyncLogging
import Zhengqi.AsyncLoggingSound
import Zhengqi.AsyncStopSound
import Zhengqi.AsyncThreads
import Zhengqi.AsyncThreadsSound
import Zhengqi.LogOperators
import Zhengqi.LogStreamSound
import Zhengqi.NumeralSound
import Zhengqi.Date
import Zhengqi.DateSound
import Zhengqi.TimeZone
import Zhengqi.DateTimeSound
import Zhengqi.ZoneSound
import Zhengqi.TimeZoneFile
import Zhengqi.ZoneFileSound
import Zhengqi.ZoneSafeSound
import Zhengqi.ZoneVersionSound
import Zhengqi.Logging
import Zhengqi.LoggingSound
import Zhengqi.LogTimeSound
import Zhengqi.LogFile
import Zhengqi.LogFileSound
import Zhengqi.BoundedBlockingQueue
import Zhengqi.BoundedBlockingQueueSound
import Zhengqi.ThreadPool
import Zhengqi.ThreadPoolSound
import Zhengqi.ThreadPoolStopSound
import Zhengqi.Condition
import Zhengqi.ConditionSound
import Zhengqi.FormatSI
import Zhengqi.FormatSISound
import Zhengqi.MinuteHourCounter
import Zhengqi.MinuteHourCounterRuns
import Zhengqi.MinuteHourCounterSound
import Zhengqi.ProcessInspector
import Zhengqi.ProcessInspectorSound
import Zhengqi.LogPipeline
import Zhengqi.LogPipelineSound
import Zhengqi.AsyncProgressSound
import Zhengqi.ActiveChannels
import Zhengqi.ActiveChannelsSound
import Zhengqi.Tunnel
import Zhengqi.OutputTotalSound
import Zhengqi.TunnelSound
import Zhengqi.WatchSound
import Zhengqi.TunnelUpSound
import Zhengqi.TunnelFlowSound
import Zhengqi.Lib.OrdMap
import Zhengqi.Inspector
import Zhengqi.InspectorSound
import Zhengqi.FormatIEC
import Zhengqi.BlockingQueue
import Zhengqi.BlockingQueueSound
import Zhengqi.CountDownLatch
import Zhengqi.CountDownLatchSound
import Zhengqi.Thread
import Zhengqi.ThreadSound
import Zhengqi.Acceptor
import Zhengqi.AcceptorSound
import Zhengqi.LogNamesSound
import Zhengqi.Resolver
import Zhengqi.ResolverSound
