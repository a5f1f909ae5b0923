import Cnet.Support.Runs
import Cnet.Support.Memory
import Cnet.Net.Buffer
import Cnet.Net.BufferRefinement
import Cnet.Base.StringPiece
import Cnet.Support.Lexicographic
import Cnet.Base.StringOrder
import Cnet.Net.Shrink
import Cnet.Support.Endian
import Cnet.Net.Endian
import Cnet.Net.BufferIntegers
import Cnet.Support.Layout
import Cnet.Base.Printf
import Cnet.Net.InetAddress
import Cnet.Net.AddressText
import Cnet.Base.ProcessInfo
import Cnet.Net.Inspect.ProcessInspector
import Cnet.Net.Inspect.StatLine
import Cnet.Base.FileUtil
import Cnet.Net.ConnectionNames
import Cnet.Net.TcpConnection
import Cnet.Net.ConnectionSteps
import Cnet.Net.OutputStream
import Cnet.Net.HalfCloseRuns
import Cnet.Net.SendOverloads
import Cnet.Net.LifeCycle
import Cnet.Net.Http.HttpRequest
import Cnet.Net.Http.HttpContext
import Cnet.Net.Http.Segmentation
import Cnet.Net.Http.HttpServer
import Cnet.Net.Http.Answers
import Cnet.Net.Http.Grammar
import Cnet.Net.Http.Encoding
import Cnet.Net.Http.Message
import Cnet.Net.Http.Responses
import Cnet.Support.OrderedSet
import Cnet.Support.Heap
import Cnet.Net.TimerQueue
import Cnet.Net.TimerSteps
import Cnet.Net.TimerOwnership
import Cnet.Support.History
import Cnet.Net.TimerCancel
import Cnet.Net.Connector
import Cnet.Net.ConnectorAttempts
import Cnet.Net.TcpClient
import Cnet.Net.ClientConnection
import Cnet.Net.EventLoop
import Cnet.Net.FunctorQueue
import Cnet.Net.Wakeup
import Cnet.Net.Quit
import Cnet.Net.EPollPoller
import Cnet.Net.EPollConsistency
import Cnet.Net.EPollInterest
import Cnet.Net.PollPoller
import Cnet.Net.PollRepresentation
import Cnet.Support.Calendar
import Cnet.Support.CInt
import Cnet.Support.Ledger
import Cnet.Base.Date
import Cnet.Support.LowerBound
import Cnet.Base.Gmtime
import Cnet.Base.TimeZone
import Cnet.Base.Casts
import Cnet.Base.UtcTime
import Cnet.Base.LocalTime
import Cnet.Support.Reading
import Cnet.Base.ZoneFile
import Cnet.Base.Format
import Cnet.Net.Http.Url
import Cnet.Support.CharArray
import Cnet.Base.LogStream
import Cnet.Base.LogContent
import Cnet.Base.Numerals
import Cnet.Base.LogIntegers
import Cnet.Base.Logging
import Cnet.Base.LogRecord
import Cnet.Base.LogClock
import Cnet.Base.LogFile
import Cnet.Base.LogRolls
import Cnet.Base.AsyncLogging
import Cnet.Base.LogConservation
import Cnet.Base.LogDrain
import Cnet.Net.TcpServer
import Cnet.Net.ServerConnections
import Cnet.Net.ServerSteps
import Cnet.Net.ServerLoops
import Cnet.Net.ServerRegistry
import Cnet.Net.ServerTeardown
import Cnet.Support.Monitor
import Cnet.Base.BlockingQueue
import Cnet.Base.ThreadPool
import Cnet.Base.ThreadPoolQueue
import Cnet.Base.ThreadPoolStop
import Cnet.Net.Http.Rejection
import Cnet.Net.TimerExpiry
import Cnet.Net.TimerClock
import Cnet.Net.TimerArming
import Cnet.Net.WaterMarks
import Cnet.Net.ClosedChannel
import Cnet.Net.ConnectDestroyed
import Cnet.Support.Buckets
import Cnet.Support.Versions
import Cnet.Support.Window
import Cnet.Support.Critical
import Cnet.Support.Consumer
import Cnet.Examples.Memcached.Item
import Cnet.Examples.Memcached.MemcacheServer
import Cnet.Examples.Memcached.StoreRefinement
import Cnet.Examples.Memcached.CompareAndSwap
import Cnet.Examples.Memcached.Interleavings
import Cnet.Examples.Memcached.Tokenizer
import Cnet.Examples.Memcached.Session
import Cnet.Examples.Memcached.SessionSteps
import Cnet.Examples.Memcached.SessionTurns
import Cnet.Examples.Memcached.SessionRuns
import Cnet.Examples.Memcached.Query
import Cnet.Examples.Memcached.Pipeline
import Cnet.Support.Rings
import Cnet.Support.ExactCover
import Cnet.Examples.Sudoku.SudokuSolver
import Cnet.Examples.Sudoku.SudokuStat
import Cnet.Examples.Sudoku.StatReport
import Cnet.Examples.Sudoku.Covering
import Cnet.Examples.Sudoku.Search
import Cnet.Examples.Sudoku.Building
import Cnet.Examples.Sudoku.MatrixOfBoard
import Cnet.Examples.Sudoku.Grid
import Cnet.Examples.Sudoku.SolveSudoku
