import PerVERT.Core.Fault
import PerVERT.Core.OrderedMap
import PerVERT.Core.Interval
import PerVERT.Core.Balance
import PerVERT.Core.Components
import PerVERT.Core.Transition
import PerVERT.Core.Sampling
import PerVERT.Core.LineRank
import PerVERT.Backend.Trace
import PerVERT.Backend.Regions
import PerVERT.Backend.Remap
import PerVERT.Backend.Index
import PerVERT.Backend.MemStatus
import PerVERT.Backend.Compaction
import PerVERT.Core.HexText
import PerVERT.Core.Istream
import PerVERT.Core.Scan
import PerVERT.Pintool.CallStack
import PerVERT.Pintool.StackOrder
import PerVERT.Pintool.Recorder
import PerVERT.Pintool.RecordedAddresses
import PerVERT.Pintool.Allocator
import PerVERT.Pintool.Threads
import PerVERT.Backend.ParseLine
import PerVERT.Backend.LineFile
import PerVERT.Backend.ParseTrace
import PerVERT.Backend.Contexts
import PerVERT.Backend.TraceFile
import PerVERT.Backend.IndexLists
import PerVERT.Pintool.TraceText
import PerVERT.Backend.RoundTrip
import PerVERT.Backend.Construct
import PerVERT.Server.Poll
import PerVERT.Frontend.ViewState
import PerVERT.Frontend.Playback
import PerVERT.Frontend.MemMap
import PerVERT.Frontend.Counts
import PerVERT.Server.TraceAccess
import PerVERT.Server.DataManager
import PerVERT.Core.Effect
import PerVERT.Backend.Loaded
import PerVERT.Backend.ContextViews
import PerVERT.Backend.Histogram
import PerVERT.Backend.FrameBounds
import PerVERT.Server.Query
import PerVERT.Server.QueryMap
import PerVERT.Server.Response
import PerVERT.Server.SentAddresses
import PerVERT.Server.StaticPath
import PerVERT.Server.Session
import PerVERT.Server.ContextSample
import PerVERT.Server.PervertLayer
import PerVERT.Server.Layers
import PerVERT.Backend.RecordedRun
import PerVERT.Backend.StackView
import PerVERT.Pintool.Tool
import PerVERT.Backend.CallingContext
import PerVERT.Core.Path
import PerVERT.Core.JsonText
import PerVERT.Server.StyledWriter
import PerVERT.Frontend.PageRequest
import PerVERT.Frontend.FrameCache
import PerVERT.Server.ContextDeriv
import PerVERT.Core.Ring
import PerVERT.Server.SocketQueue
import PerVERT.Server.WorkerPool
import PerVERT.Frontend.MapPicture
import PerVERT.Server.RequestFraming
