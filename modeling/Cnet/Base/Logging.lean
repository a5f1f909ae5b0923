import Cnet.Base.LogContent
import Cnet.Base.TimeZone

/-!
# Log records

A `Logger` writes a header into its stream when it is constructed and a trailer when it
is destroyed, and hands what is in the stream to the output function. The header comes
from the clock, the time zone of the log and the thread. A failed assert has no result.
-/

namespace Cnet.Base

open Cnet.Support

inductive LogLevel where
  | TRACE
  | DEBUG
  | INFO
  | WARN
  | ERROR
  | FATAL
deriving DecidableEq, Repr

/-- `LogLevelName`. -/
def LogLevel.name : LogLevel → List UInt8
  | .TRACE => chars "TRACE "
  | .DEBUG => chars "DEBUG "
  | .INFO => chars "INFO  "
  | .WARN => chars "WARN  "
  | .ERROR => chars "ERROR "
  | .FATAL => chars "FATAL "

/-- A `SourceFile`: the name of the file without its directory. Its `size_` is an `int`; the
names of source files are shorter than that counts. -/
def sourceFile (filename : List UInt8) : List UInt8 :=
  (filename.reverse.takeWhile (· ≠ 47)).reverse

/-- The thread local variables of the log. `t_time` is a string. -/
structure LogThread where
  t_time : List UInt8
  t_lastSecond : Int
  t_cachedTid : Int32
deriving DecidableEq

/-- `t_tidString`, as `cacheTid` writes it. -/
def LogThread.tidString (t : LogThread) : List UInt8 :=
  spacePadded 5 t.t_cachedTid.toInt ++ chars " "

/-- What else a record depends on: `g_logTimeZone`, the texts of errors and of doubles. -/
structure LogContext where
  g_logTimeZone : TimeZone
  strerror : Int32 → List UInt8
  format : Float → List UInt8

def kMicroSecondsPerSecond : Int := 1000 * 1000

structure Logger where
  stream_ : LogStream
  level_ : LogLevel
  line_ : Int32
  basename_ : List UInt8
deriving DecidableEq

namespace Logger

/-- `stream_ << T(str, len)`. -/
def insertT (stream_ : LogStream) (str : List UInt8) (len : Nat) : Option LogStream := do
  assert (str.length = len)
  stream_.append str

/-- The text of a second in `t_time`. -/
def timeText (tm_time : Tm) : List UInt8 :=
  spacePadded 4 (tm_time.tm_year + 1900) ++ zeroPadded 2 (tm_time.tm_mon + 1) ++
    zeroPadded 2 tm_time.tm_mday ++ chars " " ++ zeroPadded 2 tm_time.tm_hour ++ chars ":" ++
      zeroPadded 2 tm_time.tm_min ++ chars ":" ++ zeroPadded 2 tm_time.tm_sec

/-- The cached text of the second, brought up to date. -/
def updateTime (zone : TimeZone) (seconds : Int) (t : LogThread) : Option LogThread :=
  if seconds ≠ t.t_lastSecond then do
    let tm_time ← if zone.valid then zone.toLocalTime seconds else some (gmtime_r seconds)
    let text := timeText tm_time
    assert (text.length = 17)
    some { t with t_time := text, t_lastSecond := seconds }
  else some t

/-- The text of the `Fmt`, with a `Z` for UTC. -/
def microsecondsText (zone : TimeZone) (microseconds : Int) : List UInt8 :=
  chars "." ++ zeroPadded 6 microseconds ++ if zone.valid then chars " " else chars "Z "

def formatTime (zone : TimeZone) (time_ : Int) (t : LogThread) (stream_ : LogStream) :
    Option (LogThread × LogStream) := do
  let seconds := time_.tdiv kMicroSecondsPerSecond
  let microseconds := time_.tmod kMicroSecondsPerSecond
  let t ← updateTime zone seconds t
  let stream_ ← insertT stream_ t.t_time 17
  let stream_ ← insertT stream_ (microsecondsText zone microseconds) (if zone.valid then 8 else 9)
  some (t, stream_)

/-- `Impl`, at time `now` and with anything in the array of the stream. -/
def impl (ctx : LogContext) (data_ : SmallArray) (now : Int) (t : LogThread) (level : LogLevel)
    (savedErrno : Int32) (file : List UInt8) (line : Int32) : Option (LogThread × Logger) := do
  let (t, stream_) ← formatTime ctx.g_logTimeZone now t (.new data_)
  let stream_ ← insertT stream_ t.tidString t.tidString.length
  let stream_ ← insertT stream_ level.name 6
  let stream_ ← stream_.insertAll ctx.format
    (if savedErrno ≠ 0 then
      [.cString (some (ctx.strerror savedErrno)), .cString (some (chars " (errno=")),
        .int savedErrno, .cString (some (chars ") "))]
    else [])
  some (t, ⟨stream_, level, line, sourceFile file⟩)

/-- The four constructors. -/
inductive Construction where
  | info
  | leveled (level : LogLevel)
  | function (level : LogLevel) (func : List UInt8)
  | system (toAbort : Bool) (errno : Int32)

/-- `Logger(file, line, …)`. -/
def construct (ctx : LogContext) (data_ : SmallArray) (now : Int) (t : LogThread)
    (file : List UInt8) (line : Int32) : Construction → Option (LogThread × Logger)
  | .info => impl ctx data_ now t .INFO 0 file line
  | .leveled level => impl ctx data_ now t level 0 file line
  | .function level func => do
    let (t, l) ← impl ctx data_ now t level 0 file line
    let stream_ ← l.stream_.insertAll ctx.format [.cString (some func), .char 32]
    some (t, { l with stream_ := stream_ })
  | .system toAbort errno =>
    impl ctx data_ now t (if toAbort then .FATAL else .ERROR) errno file line

/-- `stream() << …`. -/
def insertAll (ctx : LogContext) (l : Logger) (pieces : List Piece) : Option Logger := do
  let stream_ ← l.stream_.insertAll ctx.format pieces
  some { l with stream_ := stream_ }

/-- What `finish` inserts. -/
def trailer (l : Logger) : List Piece :=
  [.cString (some (chars " - ")), .stringPiece l.basename_, .char 58, .int l.line_, .char 10]

def finish (ctx : LogContext) (l : Logger) : Option Logger := l.insertAll ctx l.trailer

/-- `~Logger`: the bytes handed to the output function, and whether the program aborts. -/
def destroy (ctx : LogContext) (l : Logger) : Option (List UInt8 × Bool) := do
  let l ← l.finish ctx
  some (l.stream_.content, l.level_ = .FATAL)

end Logger

end Cnet.Base
