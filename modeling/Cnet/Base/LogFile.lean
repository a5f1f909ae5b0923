import Cnet.Base.Format
import Cnet.Base.Gmtime

/-!
# The log file

A `LogFile` appends lines to a file, and rolls over to a new one when the file has grown
too large or a new day has begun. `fwrite` writes all it is given, so that a line is
written at once; what is buffered is in the file in the end. The bytes of one file are
fewer than a `size_t` holds.
-/

namespace Cnet.Base

/-- A reading of the clock. -/
structure Second where
  time : Int
  pos : 0 < time
deriving DecidableEq

/-- An `AppendFile`, with what has been written to it and the second it was created in. -/
structure AppendFile where
  filename : List UInt8
  created : Int
  text : List UInt8
  writtenBytes_ : Nat
deriving DecidableEq

namespace AppendFile

def new (filename : List UInt8) (created : Int) : AppendFile := ⟨filename, created, [], 0⟩

/-- No bytes remain after the first `write`. -/
def append (f : AppendFile) (logline : List UInt8) : AppendFile :=
  { f with text := f.text ++ logline, writtenBytes_ := f.writtenBytes_ + logline.length }

end AppendFile

/-- What names a file besides the time. -/
structure LogFileSite where
  basename : List UInt8
  hostname : List UInt8
  pid : Int

/-- `strftime(…, ".%Y%m%d-%H%M%S", &tm)`. -/
def timebuf (tm : Tm) : List UInt8 :=
  chars "." ++ decimalText (tm.tm_year + 1900) ++ zeroPadded 2 (tm.tm_mon + 1) ++
    zeroPadded 2 tm.tm_mday ++ chars "-" ++ zeroPadded 2 tm.tm_hour ++ zeroPadded 2 tm.tm_min ++
      zeroPadded 2 tm.tm_sec

def getLogFileName (site : LogFileSite) (now : Int) : List UInt8 :=
  site.basename ++ timebuf (gmtime_r now) ++ site.hostname ++
    (chars "." ++ decimalText site.pid) ++ chars ".log"

def kRollPerSeconds_ : Int := 60 * 60 * 24

/-- A `LogFile`. `closed` are the files that `file_` has been reset from, in order. -/
structure LogFile where
  site : LogFileSite
  rollSize_ : Nat
  flushInterval_ : Int
  checkEveryN_ : Int
  count_ : Int
  startOfPeriod_ : Int
  lastRoll_ : Int
  lastFlush_ : Int
  file_ : Option AppendFile
  closed : List AppendFile

namespace LogFile

/-- `rollFile`, which reads the time `now`. -/
def rollFile (s : LogFile) (now : Second) : LogFile × Bool :=
  let filename := getLogFileName s.site now.time
  let start := now.time / kRollPerSeconds_ * kRollPerSeconds_
  if now.time > s.lastRoll_ then
    ({ s with
      lastRoll_ := now.time
      lastFlush_ := now.time
      startOfPeriod_ := start
      file_ := some (.new filename now.time)
      closed := s.closed ++ s.file_.toList }, true)
  else (s, false)

/-- The constructor; its roll reads the time `now`. -/
def new (site : LogFileSite) (rollSize : Nat) (flushInterval checkEveryN : Int) (now : Second) :
    LogFile :=
  (rollFile
    { site := site, rollSize_ := rollSize, flushInterval_ := flushInterval
      checkEveryN_ := checkEveryN, count_ := 0, startOfPeriod_ := 0, lastRoll_ := 0
      lastFlush_ := 0, file_ := none, closed := [] } now).1

/-- A call of `append`, with the times that it reads where it reads them: `now` for the
check of the day, `rollNow` in `rollFile`. -/
structure Call where
  logline : List UInt8
  now : Second
  rollNow : Second

/-- What `append_unlocked` does every `checkEveryN_` lines. -/
def check (s : LogFile) (now rollNow : Second) : LogFile :=
  let thisperiod := now.time / kRollPerSeconds_ * kRollPerSeconds_
  if thisperiod ≠ s.startOfPeriod_ then (s.rollFile rollNow).1
  else if now.time - s.lastFlush_ > s.flushInterval_ then { s with lastFlush_ := now.time }
  else s

/-- `file_->append`. -/
def write (s : LogFile) (file : AppendFile) (logline : List UInt8) : LogFile :=
  { s with file_ := some (file.append logline) }

def append (s : LogFile) (c : Call) : Option LogFile :=
  s.file_.map fun file =>
    let s := s.write file c.logline
    if (file.append c.logline).writtenBytes_ > s.rollSize_ then (s.rollFile c.rollNow).1
    else
      let s := { s with count_ := s.count_ + 1 }
      if s.count_ ≥ s.checkEveryN_ then { s with count_ := 0 }.check c.now c.rollNow
      else s

variable (s : LogFile) (file : AppendFile) (logline : List UInt8)

@[simp] theorem write_file_ : (s.write file logline).file_ = some (file.append logline) := rfl
@[simp] theorem write_closed : (s.write file logline).closed = s.closed := rfl
@[simp] theorem write_lastRoll_ : (s.write file logline).lastRoll_ = s.lastRoll_ := rfl
@[simp] theorem write_site : (s.write file logline).site = s.site := rfl

def appendAll (s : LogFile) : List Call → Option LogFile
  | [] => some s
  | c :: calls => (s.append c).bind fun s => s.appendAll calls

/-- All the files, in the order of their creation. -/
def files (s : LogFile) : List AppendFile := s.closed ++ s.file_.toList

end LogFile

end Cnet.Base
