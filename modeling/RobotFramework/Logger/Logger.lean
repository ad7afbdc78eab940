import Std.Data.TreeMap.Lemmas
import RobotFramework.Lib.Reactive
import RobotFramework.Logger.Entry

/-!
# `Logger/Logger.cpp`: the logger

Entries are buffered under their key, `component` or `component/sub`, and written to the file of the
key when 100 have come together, or all of them by `flushAll` and `closeAll`. `initialize` opens the
files of its components at once, every other file is opened by the first entry under its key.

What the file system says (whether a file can be opened) and the two clocks are arguments of each
call. A write to a stream that is open and has not failed succeeds.
-/

namespace RobotFramework

open Cxx Reactive

/-- `std::ofstream`: the file it is open on, and failbit. -/
structure OFStream where
  file : Option Text := none
  fail : Bool := false
deriving DecidableEq

/-- `open(filename, std::ios::app)`; `ok` says whether the file can be opened. A stream that is open
already stays so, and fails. -/
def OFStream.openFile (f : OFStream) (ok : Bool) (filename : Text) : OFStream :=
  if f.file.isSome then { f with fail := true }
  else if ok then { file := some filename, fail := false }
  else { f with fail := true }

def OFStream.isOpen (f : OFStream) : Bool := f.file.isSome

structure LogEntry (K : Type) where
  timestampMs : Int
  numericData : Std.TreeMap String (Double K)
  message : Text
  level : LogLevel

def logLevelToString : LogLevel → Text
  | .INFO => "INFO".toList
  | .WARN => "WARN".toList
  | .CRIT => "CRIT".toList
  | .DONE => "DONE".toList
  | .FAIL => "FAIL".toList
  | .MISC => "MISC".toList
  | .LOVE => "LOVE".toList
  | .HATE => "HATE".toList

/-- The line `flush` writes for an entry. The fill character stays `0` once it is set, and padding
goes to the left of the whole number, its sign included. -/
def LogEntry.line {K : Type} [Field K] [LinearOrder K] [FloorRing K] (entry : LogEntry K) : Text :=
  padLeft '0' 8 (intText entry.timestampMs) ++
    (entry.numericData.toList.flatMap fun kv => " | ".toList ++ padLeft '0' 10 kv.2.toText) ++
    (if entry.message = [] then []
      else " [".toList ++ logLevelToString entry.level ++ "] ".toList ++ entry.message) ++
    ['\n']

/-- An entry that a flush wrote: the key it was buffered under, the file, and the entry. -/
structure Written (K : Type) where
  key : Text
  file : Text
  entry : LogEntry K

/-- `class Logger` -/
structure Logger (K : Type) where
  files : Std.TreeMap Text OFStream := ∅
  buffers : Std.TreeMap Text (List (LogEntry K)) := ∅
  logDirectory : Text
  isInitialized : Bool := false
  startTime : Int := 0
  sessionTimestamp : Text := []

def BUFFER_SIZE : Nat := 100

/-- What a call takes from the system: `high_resolution_clock` in nanoseconds, the local time as
`put_time` prints it, and which files can be opened. -/
structure LogEnv where
  now : Int
  localTime : Text
  opens : Text → Bool

/-- The key of a log call; an empty `sub` counts as none. -/
def LogCall.key {K : Type} (call : LogCall K) : Text :=
  match call.sub with
  | none | some [] => call.component
  | some (c :: sub) => call.component ++ '/' :: c :: sub

/-- The stem of the file name. -/
def LogCall.stem {K : Type} (call : LogCall K) : Text :=
  match call.sub with
  | none | some [] => call.component
  | some (c :: sub) => c :: sub

def LogCall.entry {K : Type} (call : LogCall K) (timestampMs : Int) : LogEntry K :=
  { timestampMs
    numericData := call.numericData
    message := call.message
    level := call.level }

namespace Logger

variable {K : Type}

/-- `Logger::Logger` -/
def new (dir : Text) : Logger K := { logDirectory := dir }

def filename (l : Logger K) (component stem : Text) : Text :=
  l.logDirectory ++ '/' :: component ++ '/' :: stem ++ '_' :: l.sessionTimestamp ++ ".log".toList

/-- `files[key].open(filename, std::ios::app)` -/
def openFile (l : Logger K) (env : LogEnv) (key filename : Text) : Logger K :=
  let file := (l.files[key]?.getD {}).openFile (env.opens filename) filename
  { l with files := l.files.insert key file }

/-- `files[key].is_open()` -/
def isOpen (l : Logger K) (key : Text) : Bool := (l.files[key]?.getD {}).isOpen

def clearBuffer (l : Logger K) (key : Text) : Logger K :=
  { l with buffers := l.buffers.insert key [] }

/-- The loop of `initialize`; a file that cannot be opened ends it. -/
def openComponents (env : LogEnv) : List Text → Logger K → Logger K × Bool
  | [], l => ({ l with isInitialized := true }, true)
  | comp :: components, l =>
    let l := l.openFile env comp (l.filename comp comp)
    if !l.isOpen comp then (l, false)
    else openComponents env components (l.clearBuffer comp)

/-- `initialize` -/
def initializeComponents (l : Logger K) (env : LogEnv) (components : List Text) : Logger K × Bool :=
  openComponents env components { l with startTime := env.now, sessionTimestamp := env.localTime }

def ensureOpen (l : Logger K) (env : LogEnv) (key component stem : Text) : Logger K :=
  if l.files.contains key then l
  else
    let l := if l.sessionTimestamp = [] then { l with sessionTimestamp := env.localTime } else l
    let l := l.openFile env key (l.filename component stem)
    if !l.isOpen key then l else l.clearBuffer key

/-- `flush`: what is buffered under the key goes to its stream, and the buffer is cleared. -/
def flush (l : Logger K) (key : Text) : Logger K × List (Written K) :=
  let file := l.files[key]?.getD {}
  let buf := l.buffers[key]?.getD []
  let l := { l with files := l.files.insert key file, buffers := l.buffers.insert key [] }
  match file.file with
  | some path => (l, if file.fail then [] else buf.map fun entry => ⟨key, path, entry⟩)
  | none => (l, [])

def elapsedMs (startTime now : Int) : Int := (now - startTime).tdiv 1000000

/-- `log`. All overloads come to this: those without `sub` test `is_initialized` and `files` in one
condition, those with it in two. -/
def log (l : Logger K) (env : LogEnv) (call : LogCall K) : Logger K × List (Written K) :=
  let key := call.key
  let l :=
    if !l.isInitialized || !l.files.contains key then l.ensureOpen env key call.component call.stem
    else l
  if !l.files.contains key then (l, [])
  else
    let entry := call.entry (elapsedMs l.startTime env.now)
    let buffer := l.buffers[key]?.getD [] ++ [entry]
    let l := { l with buffers := l.buffers.insert key buffer }
    if BUFFER_SIZE ≤ buffer.length then l.flush key else (l, [])

def flushKeys : List Text → Logger K → Logger K × List (Written K)
  | [], l => (l, [])
  | key :: keys, l =>
    let (l, written) := l.flush key
    let (l, written') := flushKeys keys l
    (l, written ++ written')

def flushAll (l : Logger K) : Logger K × List (Written K) := flushKeys l.buffers.keys l

def closeAll (l : Logger K) : Logger K × List (Written K) :=
  let (l, written) := l.flushAll
  ({ l with files := ∅, buffers := ∅, isInitialized := false }, written)

/-- The text a file gains from what is written. -/
def contents [Field K] [LinearOrder K] [FloorRing K] (file : Text) (os : List (Written K)) : Text :=
  os.flatMap fun w => if w.file = file then w.entry.line else []

/-- A public call. The destructor is a `closeAll`. -/
inductive Call (K : Type) where
  | initializeComponents (components : List Text)
  | log (call : LogCall K)
  | flushAll
  | closeAll

/-- The logger under its calls, with what is written. -/
def calls : Machine (Logger K) (Call K × LogEnv) (Written K)
  | l, (.initializeComponents components, env) => ((l.initializeComponents env components).1, [])
  | l, (.log call, env) => l.log env call
  | l, (.flushAll, _) => l.flushAll
  | l, (.closeAll, _) => l.closeAll

end Logger

end RobotFramework
