import RobotFramework.Lib.BufferedWriter
import RobotFramework.Logger.Logger

/-!
# What the logger delivers

To each key the logger is a buffered writer (`view`): what a call does to it is a few operations of
that writer, and the others do not notice (`view_calls`). So what becomes of the entries is what
becomes of them in a buffered writer, key by key: `initialize` throws away what is pending under the
components it names again, and breaks their streams for all that follows. Nothing else loses an
entry (`delivered_iff`).

Files can be opened here, and writes succeed.
-/

namespace RobotFramework

open Cxx Reactive BufferedWriter

namespace Logger

variable {K : Type}

/-! ## The calls as operations on one key -/

/-- The entries that a call logs under the key; `startTime` is that of the last `initialize`. -/
def entries (key : Text) (startTime : Int) : Call K × LogEnv → List (LogEntry K)
  | (.log call, env) => if call.key = key then [call.entry (elapsedMs startTime env.now)] else []
  | _ => []

/-- What a call does to the key. -/
def ops (key : Text) (startTime : Int) : Call K × LogEnv → List (Op (LogEntry K))
  | (.initializeComponents components, _) => (components.filter (· = key)).map fun _ => .start
  | (.log call, env) => (entries key startTime (.log call, env)).map .put
  | (.flushAll, _) => [.flush]
  | (.closeAll, _) => [.close]

def startAfter (startTime : Int) : Call K × LogEnv → Int
  | (.initializeComponents _, env) => env.now
  | _ => startTime

/-- The entries that the calls of a run log under the key, in order. -/
def logged (key : Text) : Int → List (Call K × LogEnv) → List (LogEntry K)
  | _, [] => []
  | startTime, e :: es => entries key startTime e ++ logged key (startAfter startTime e) es

/-- What the calls of a run do to the key. -/
def opsOf (key : Text) : Int → List (Call K × LogEnv) → List (Op (LogEntry K))
  | _, [] => []
  | startTime, e :: es => ops key startTime e ++ opsOf key (startAfter startTime e) es

theorem puts_map_put {α : Type} (as : List α) : puts (as.map .put) = as := by
  induction as with
  | nil => rfl
  | cons a as ih => exact congrArg (a :: ·) ih

theorem puts_ops (key : Text) (startTime : Int) (e : Call K × LogEnv) :
    puts (ops key startTime e) = entries key startTime e := by
  obtain ⟨call, env⟩ := e
  cases call with
  | initializeComponents components => simp [ops, puts, entries]
  | log call => exact puts_map_put _
  | flushAll => rfl
  | closeAll => rfl

theorem puts_opsOf (key : Text) (startTime : Int) (es : List (Call K × LogEnv)) :
    puts (opsOf key startTime es) = logged key startTime es := by
  induction es generalizing startTime with
  | nil => rfl
  | cons e es ih => rw [opsOf, logged, puts_append, puts_ops, ih]

/-! ## The logger as one key sees it -/

/-- The stream and the buffer of a key. -/
def view (l : Logger K) (key : Text) : State (LogEntry K) :=
  match l.files[key]? with
  | none => closed
  | some file => ⟨true, file.fail, l.buffers[key]?.getD []⟩

/-- What was written of a key. -/
def written (key : Text) (os : List (Written K)) : List (LogEntry K) :=
  os.filterMap fun w => if w.key = key then some w.entry else none

/-- Every stream is open, and what has a buffer has a stream. -/
structure Opened (l : Logger K) : Prop where
  open_files : ∀ (key : Text) (file : OFStream), l.files[key]? = some file → file.file.isSome = true
  files_of_buffers : ∀ key : Text, l.files[key]? = none → l.buffers[key]? = none

theorem contains_iff {β : Type} (t : Std.TreeMap Text β) (key : Text) :
    t.contains key = t[key]?.isSome :=
  Std.TreeMap.contains_eq_isSome_getElem?

theorem view_eq_closed {l : Logger K} {key : Text} (h : l.files.contains key = false) :
    l.view key = closed := by
  rw [contains_iff, Option.isSome_eq_false_iff, Option.isNone_iff_eq_none] at h
  rw [view, h]

theorem opened_new (dir : Text) : Opened (new dir : Logger K) := by
  constructor
  · intro key file h
    have hnone : (∅ : Std.TreeMap Text OFStream)[key]? = none := Std.TreeMap.getElem?_emptyc
    rw [show (new dir : Logger K).files = ∅ from rfl, hnone] at h
    cases h
  · intro key _
    exact Std.TreeMap.getElem?_emptyc

/-- A call, or a part of one, does these operations to every key, and keeps the streams open. -/
structure Does (l : Logger K) (r : Logger K × List (Written K))
    (opsAt : Text → List (Op (LogEntry K))) : Prop where
  opened : Opened r.1
  startTime : r.1.startTime = l.startTime
  view : ∀ key, r.1.view key = (writer BUFFER_SIZE).after (l.view key) (opsAt key)
  written : ∀ key, written key r.2 = (writer BUFFER_SIZE).trace (l.view key) (opsAt key)

theorem Does.both {l : Logger K} {r : Logger K × List (Written K)}
    {opsAt : Text → List (Op (LogEntry K))} (h : Does l r opsAt) (key : Text) :
    r.1.view key = (writer BUFFER_SIZE).after (l.view key) (opsAt key) ∧
      Logger.written key r.2 = (writer BUFFER_SIZE).trace (l.view key) (opsAt key) :=
  ⟨h.view key, h.written key⟩

theorem Does.nothing {l : Logger K} (h : Opened l) : Does l (l, []) fun _ => [] :=
  ⟨h, rfl, fun _ => rfl, fun _ => rfl⟩

theorem written_append (key : Text) (os os' : List (Written K)) :
    written key (os ++ os') = written key os ++ written key os' :=
  List.filterMap_append

theorem Does.trans {l : Logger K} {r r' : Logger K × List (Written K)}
    {opsAt opsAt' : Text → List (Op (LogEntry K))} (h : Does l r opsAt) (h' : Does r.1 r' opsAt') :
    Does l (r'.1, r.2 ++ r'.2) fun key => opsAt key ++ opsAt' key := by
  refine ⟨h'.opened, h'.startTime.trans h.startTime, ?_, ?_⟩
  · intro key
    rw [Machine.after_append, ← h.view]
    exact h'.view key
  · intro key
    rw [Machine.trace_append, written_append, h.written, ← h.view, h'.written]

/-! ## One key at a time -/

/-- `l'` is `l` with another stream and buffer under one key. -/
structure Update (l l' : Logger K) (key : Text) (file : OFStream) (buffer : List (LogEntry K)) :
    Prop where
  startTime : l'.startTime = l.startTime
  file : l'.files[key]? = some file
  buffer : l'.buffers[key]? = some buffer
  other : ∀ key', key ≠ key' →
    l'.files[key']? = l.files[key']? ∧ l'.buffers[key']? = l.buffers[key']?

theorem update_insert (l : Logger K) (key : Text) (file : OFStream) (buffer : List (LogEntry K)) :
    Update l { l with files := l.files.insert key file, buffers := l.buffers.insert key buffer } key
      file buffer := by
  refine ⟨rfl, ?_, ?_, fun key' hne => ⟨?_, ?_⟩⟩
  · exact Std.TreeMap.getElem?_insert_self
  · exact Std.TreeMap.getElem?_insert_self
  · rw [getElem?_insert, if_neg hne]
  · rw [getElem?_insert, if_neg hne]

/-- A buffer alone is replaced. -/
theorem update_buffer {l : Logger K} {key : Text} {file : OFStream}
    (hfile : l.files[key]? = some file) (buffer : List (LogEntry K)) :
    Update l { l with buffers := l.buffers.insert key buffer } key file buffer := by
  refine ⟨rfl, hfile, Std.TreeMap.getElem?_insert_self, fun key' hne => ⟨rfl, ?_⟩⟩
  rw [getElem?_insert, if_neg hne]

variable {l l' : Logger K} {key : Text} {file : OFStream} {buffer : List (LogEntry K)}

theorem view_eq (hfile : l.files[key]? = some file) :
    l.view key = ⟨true, file.fail, l.buffers[key]?.getD []⟩ := by
  rw [view, hfile]

theorem Update.trans {l'' : Logger K} {file' : OFStream} {buffer' : List (LogEntry K)}
    (h : Update l l' key file buffer) (h' : Update l' l'' key file' buffer') :
    Update l l'' key file' buffer' := by
  refine ⟨h'.startTime.trans h.startTime, h'.file, h'.buffer, fun key' hne => ?_⟩
  exact ⟨(h'.other key' hne).1.trans (h.other key' hne).1,
    (h'.other key' hne).2.trans (h.other key' hne).2⟩

theorem Update.opened (h : Update l l' key file buffer) (hl : Opened l)
    (hopen : file.file.isSome = true) : Opened l' := by
  constructor
  · intro key' file' hfile'
    by_cases hkey : key = key'
    · rw [← hkey, h.file] at hfile'
      cases hfile'
      exact hopen
    · rw [(h.other key' hkey).1] at hfile'
      exact hl.open_files key' file' hfile'
  · intro key' hnone
    by_cases hkey : key = key'
    · rw [← hkey, h.file] at hnone
      cases hnone
    · rw [(h.other key' hkey).1] at hnone
      rw [(h.other key' hkey).2]
      exact hl.files_of_buffers key' hnone

/-- What happens under one key concerns this key alone. -/
theorem Update.does {os : List (Written K)} {ops : List (Op (LogEntry K))}
    (h : Update l l' key file buffer) (hl : Opened l) (hopen : file.file.isSome = true)
    (hkeys : ∀ w ∈ os, w.key = key)
    (hview : ⟨true, file.fail, buffer⟩ = (writer BUFFER_SIZE).after (l.view key) ops)
    (hwritten : Logger.written key os = (writer BUFFER_SIZE).trace (l.view key) ops) :
    Does l (l', os) fun key' => if key = key' then ops else [] := by
  refine ⟨h.opened hl hopen, h.startTime, fun key' => ?_, fun key' => ?_⟩
  · by_cases hkey : key = key'
    · rw [if_pos hkey, ← hkey, ← hview, view_eq h.file, h.buffer]
      rfl
    · rw [if_neg hkey, view, view, (h.other key' hkey).1, (h.other key' hkey).2]
      rfl
  · by_cases hkey : key = key'
    · rw [if_pos hkey, ← hkey]
      exact hwritten
    · rw [if_neg hkey, Logger.written, List.filterMap_eq_nil_iff.mpr]
      · rfl
      · intro w hw
        rw [if_neg]
        rw [hkeys w hw]
        exact hkey

/-- A loop over keys does to each key what its first round and the rest do. -/
theorem perKey_cons (op : Op (LogEntry K)) (key : Text) (keys : List Text) :
    (fun key' => ((key :: keys).filter (· = key')).map fun _ => op) =
      fun key' => (if key = key' then [op] else []) ++
        (keys.filter (· = key')).map fun _ => op := by
  funext key'
  by_cases hkey : key = key'
  · simp [hkey]
  · simp [hkey]

/-! ## Opening -/

/-- Opening a file and clearing its buffer starts the writer of the key. -/
theorem does_start (h : Opened l) {env : LogEnv} (hopens : ∀ file, env.opens file = true)
    (key filename : Text) :
    (l.openFile env key filename).isOpen key = true ∧
      Does l ((l.openFile env key filename).clearBuffer key, [])
        fun key' => if key = key' then [.start] else [] := by
  have hopenFile : ∀ file : OFStream, (file.openFile true filename).file.isSome = true := by
    intro file
    unfold OFStream.openFile
    split
    · assumption
    · rfl
  have hupdate : Update l ((l.openFile env key filename).clearBuffer key) key
      ((l.files[key]?.getD {}).openFile true filename) [] := by
    rw [openFile, hopens]
    exact update_insert l key _ _
  constructor
  · have hfile : (l.openFile env key filename).files[key]? = _ := hupdate.file
    rw [isOpen, hfile]
    exact hopenFile _
  · refine hupdate.does h (hopenFile _) (by simp) ?_ rfl
    -- A stream that was open has failed now, a new one has not.
    show _ = (⟨true, (l.view key).isOpen, []⟩ : State (LogEntry K))
    cases hfile : l.files[key]? with
    | none =>
      rw [view, hfile]
      rfl
    | some file =>
      have hopen := h.open_files key file hfile
      rw [view_eq hfile]
      simp [OFStream.openFile, hopen]

theorem does_openComponents {env : LogEnv} (hopens : ∀ file, env.opens file = true)
    (components : List Text) {l : Logger K} (h : Opened l) :
    Does l ((openComponents env components l).1, [])
      fun key => (components.filter (· = key)).map fun _ => .start := by
  induction components generalizing l with
  | nil => exact ⟨⟨h.open_files, h.files_of_buffers⟩, rfl, fun _ => rfl, fun _ => rfl⟩
  | cons comp components ih =>
    obtain ⟨hopen, hstart⟩ := does_start h hopens comp (l.filename comp comp)
    have hrest := hstart.trans (ih hstart.opened)
    rw [openComponents, hopen, perKey_cons]
    exact hrest

/-- The first entry under a key opens its file. -/
theorem ensureOpen_of_contains {l : Logger K} {env : LogEnv} {key : Text} (component stem : Text)
    (h : l.files.contains key = true) : l.ensureOpen env key component stem = l := by
  rw [ensureOpen, if_pos h]

/-- Otherwise the session timestamp is set, if it is not yet, and the file of that name opened. -/
theorem ensureOpen_of_new {l : Logger K} {key : Text} (hnew : l.files.contains key = false)
    (env : LogEnv) (component stem : Text) :
    ∃ (l' : Logger K) (filename : Text), l'.files = l.files ∧ l'.buffers = l.buffers ∧
      l'.startTime = l.startTime ∧
      l.ensureOpen env key component stem =
        if !(l'.openFile env key filename).isOpen key then l'.openFile env key filename
        else (l'.openFile env key filename).clearBuffer key := by
  refine ⟨if l.sessionTimestamp = [] then { l with sessionTimestamp := env.localTime } else l,
    _, ?_, ?_, ?_, if_neg (by simp [hnew])⟩
  · split <;> rfl
  · split <;> rfl
  · split <;> rfl

theorem does_ensureOpen {l : Logger K} (h : Opened l) {env : LogEnv}
    (hopens : ∀ file, env.opens file = true) {key : Text} (component stem : Text)
    (hnew : l.files.contains key = false) :
    Does l (l.ensureOpen env key component stem, [])
      fun key' => if key = key' then [.start] else [] := by
  obtain ⟨l', filename, hfiles, hbuffers, hstart, heq⟩ := ensureOpen_of_new hnew env component stem
  have hopened : Opened l' := by
    refine ⟨?_, ?_⟩
    · rw [hfiles]
      exact h.open_files
    · rw [hfiles, hbuffers]
      exact h.files_of_buffers
  have hview : ∀ key', l'.view key' = l.view key' := by
    intro key'
    rw [view, view, hfiles, hbuffers]
  obtain ⟨hopen, hdoes⟩ := does_start hopened hopens key filename
  simp only [heq, hopen, Bool.not_true, Bool.false_eq_true, if_false]
  refine ⟨hdoes.opened, hdoes.startTime.trans hstart, ?_, ?_⟩
  · intro key'
    rw [← hview]
    exact hdoes.view key'
  · intro key'
    rw [← hview]
    exact hdoes.written key'

/-! ## Flushing -/

theorem flush_eq (h : Opened l) (hfile : l.files[key]? = some file) :
    ∃ path, l.flush key =
      ({ l with files := l.files.insert key file, buffers := l.buffers.insert key [] },
        if file.fail then []
        else (l.buffers[key]?.getD []).map fun entry => ⟨key, path, entry⟩) := by
  obtain ⟨path, hpath⟩ := Option.isSome_iff_exists.mp (h.open_files key file hfile)
  refine ⟨path, ?_⟩
  unfold flush
  simp only [hfile, Option.getD_some, hpath]

theorem key_of_mem_flush {fail : Bool} {path : Text} {w : Written K}
    (hw : w ∈ if fail then [] else buffer.map fun entry => ⟨key, path, entry⟩) : w.key = key := by
  split at hw
  · cases hw
  · obtain ⟨entry, -, rfl⟩ := List.mem_map.mp hw
    rfl

theorem written_flush (fail : Bool) (path : Text) :
    written key (if fail then [] else buffer.map fun entry => ⟨key, path, entry⟩) =
      if fail then [] else buffer := by
  split
  · rfl
  · rw [written, List.filterMap_map]
    simp

theorem does_flush (h : Opened l) (hkey : l.files.contains key = true) :
    Does l (l.flush key) fun key' => if key = key' then [.flush] else [] := by
  rw [contains_iff] at hkey
  obtain ⟨file, hfile⟩ := Option.isSome_iff_exists.mp hkey
  obtain ⟨path, hflush⟩ := flush_eq h hfile
  rw [hflush]
  refine (update_insert l key file []).does h (h.open_files key file hfile) ?_ ?_ ?_
  · exact fun w hw => key_of_mem_flush hw
  · rw [view_eq hfile]
    rfl
  · rw [view_eq hfile, written_flush]
    exact (List.append_nil _).symm

/-! ## Logging -/

/-- Buffering an entry under a key with a stream, and flushing when it is the hundredth. -/
def push (l : Logger K) (key : Text) (entry : LogEntry K) : Logger K × List (Written K) :=
  let buffer := l.buffers[key]?.getD [] ++ [entry]
  let l := { l with buffers := l.buffers.insert key buffer }
  if BUFFER_SIZE ≤ buffer.length then l.flush key else (l, [])

theorem does_push (h : Opened l) (hkey : l.files.contains key = true) (entry : LogEntry K) :
    Does l (l.push key entry) fun key' => if key = key' then [.put entry] else [] := by
  rw [contains_iff] at hkey
  obtain ⟨file, hfile⟩ := Option.isSome_iff_exists.mp hkey
  have hopen := h.open_files key file hfile
  have hpushed := update_buffer hfile (l.buffers[key]?.getD [] ++ [entry])
  unfold push
  by_cases hfull : BUFFER_SIZE ≤ (l.buffers[key]?.getD [] ++ [entry]).length
  · -- The hundredth entry: the writer flushes itself.
    have hput : writer BUFFER_SIZE (l.view key) (.put entry) =
        BufferedWriter.flush ⟨true, file.fail, l.buffers[key]?.getD [] ++ [entry]⟩ := by
      rw [view_eq hfile]
      exact if_pos hfull
    obtain ⟨path, hflush⟩ := flush_eq (hpushed.opened h hopen) hpushed.file
    simp only [hfull, if_true]
    rw [hflush]
    refine (hpushed.trans (update_insert _ key file [])).does h hopen ?_ ?_ ?_
    · exact fun w hw => key_of_mem_flush hw
    · rw [Machine.after_cons, hput]
      rfl
    · rw [Machine.trace_cons, hput, hpushed.buffer, written_flush]
      exact (List.append_nil _).symm
  · have hput : writer BUFFER_SIZE (l.view key) (.put entry) =
        (⟨true, file.fail, l.buffers[key]?.getD [] ++ [entry]⟩, []) := by
      rw [view_eq hfile]
      exact if_neg hfull
    simp only [hfull, if_false]
    refine hpushed.does h hopen (by simp) ?_ ?_
    · rw [Machine.after_cons, hput]
      rfl
    · rw [Machine.trace_cons, hput]
      rfl

/-- Whether or not the file could be opened, the key has a stream then. -/
theorem contains_ensureOpen (l : Logger K) (env : LogEnv) (key component stem : Text) :
    (l.ensureOpen env key component stem).files.contains key = true := by
  cases hnew : l.files.contains key with
  | true => rw [ensureOpen_of_contains component stem hnew, hnew]
  | false =>
    obtain ⟨l', filename, -, -, -, heq⟩ := ensureOpen_of_new hnew env component stem
    rw [heq]
    split <;> exact Std.TreeMap.contains_insert_self

/-- A `log` call opens the file if there is none, and buffers the entry. -/
theorem log_eq (l : Logger K) (env : LogEnv) (call : LogCall K) :
    l.log env call = (l.ensureOpen env call.key call.component call.stem).push call.key
      (call.entry
        (elapsedMs (l.ensureOpen env call.key call.component call.stem).startTime env.now)) := by
  have hcontains := contains_ensureOpen l env call.key call.component call.stem
  have hopen : (if !l.isInitialized || !l.files.contains call.key then
      l.ensureOpen env call.key call.component call.stem else l) =
        l.ensureOpen env call.key call.component call.stem := by
    by_cases hnew : l.files.contains call.key = true
    · rw [ensureOpen_of_contains call.component call.stem hnew, ite_self]
    · rw [if_pos]
      simp [hnew]
  unfold log
  simp only [hopen, hcontains]
  rfl

theorem does_log {l : Logger K} (h : Opened l) {env : LogEnv}
    (hopens : ∀ file, env.opens file = true) (call : LogCall K) :
    Does l (l.log env call) fun key => ops key l.startTime (.log call, env) := by
  have hops : (fun key => ops key l.startTime (.log call, env)) = fun key =>
      if call.key = key then [.put (call.entry (elapsedMs l.startTime env.now))] else [] := by
    funext key
    rw [ops, entries]
    split <;> rfl
  rw [log_eq, hops]
  have hcontains := contains_ensureOpen l env call.key call.component call.stem
  cases hnew : l.files.contains call.key with
  | true =>
    rw [ensureOpen_of_contains call.component call.stem hnew]
    exact does_push h hnew _
  | false =>
    have hopen := does_ensureOpen h hopens call.component call.stem hnew
    have hpush := does_push hopen.opened hcontains
      (call.entry (elapsedMs l.startTime env.now))
    have hboth := hopen.trans hpush
    rw [hopen.startTime]
    -- A closed writer is opened by the entry just as well.
    have hclosed := view_eq_closed hnew
    refine ⟨hboth.opened, hboth.startTime, ?_, ?_⟩
    · intro key
      refine (hboth.view key).trans ?_
      by_cases heq : call.key = key
      · rw [if_pos heq, if_pos heq, ← heq, hclosed]
        rfl
      · rw [if_neg heq, if_neg heq]
        rfl
    · intro key
      refine (hboth.written key).trans ?_
      by_cases heq : call.key = key
      · rw [if_pos heq, if_pos heq, ← heq, hclosed]
        rfl
      · rw [if_neg heq, if_neg heq]
        rfl

/-! ## Flushing all -/

theorem files_flush {l : Logger K} {key : Text} (hkey : l.files.contains key = true) (key' : Text) :
    (l.flush key).1.files.contains key' = l.files.contains key' := by
  have hfiles : (l.flush key).1.files = l.files.insert key (l.files[key]?.getD {}) := by
    unfold flush
    simp only
    split <;> rfl
  rw [hfiles, contains_iff, getElem?_insert, contains_iff]
  split
  · rename_i heq
    rw [contains_iff, heq] at hkey
    rw [hkey]
    rfl
  · rfl

theorem does_flushKeys {keys : List Text} {l : Logger K} (h : Opened l)
    (hkeys : ∀ key ∈ keys, l.files.contains key = true) :
    Does l (flushKeys keys l) fun key => (keys.filter (· = key)).map fun _ => .flush := by
  induction keys generalizing l with
  | nil => exact Does.nothing h
  | cons key keys ih =>
    have hkey := hkeys key List.mem_cons_self
    have hflush := does_flush h hkey
    have hrest := ih hflush.opened fun key' hmem => by
      rw [files_flush hkey]
      exact hkeys key' (List.mem_cons_of_mem _ hmem)
    rw [perKey_cons]
    exact hflush.trans hrest

/-- A key without a buffer has nothing to flush, and the others are flushed. -/
theorem flush_buffered (l : Logger K) (key : Text) :
    (writer BUFFER_SIZE).after (l.view key)
        ((l.buffers.keys.filter (· = key)).map fun _ => .flush) =
      (BufferedWriter.flush (l.view key)).1 ∧
    (writer BUFFER_SIZE).trace (l.view key)
        ((l.buffers.keys.filter (· = key)).map fun _ => .flush) =
      (BufferedWriter.flush (l.view key)).2 := by
  cases hfilter : l.buffers.keys.filter (· = key) with
  | cons x xs => exact flush_many _ _ _ _
  | nil =>
    have hnot : key ∉ l.buffers.keys := by
      intro hmem
      have hself : key ∈ l.buffers.keys.filter (· = key) := List.mem_filter.mpr ⟨hmem, by simp⟩
      rw [hfilter] at hself
      cases hself
    have hbuffer : l.buffers[key]? = none := by
      rw [Std.TreeMap.mem_keys, Std.TreeMap.mem_iff_contains, contains_iff] at hnot
      simpa using hnot
    have hempty : (l.view key).buffer = [] := by
      rw [view, hbuffer]
      cases l.files[key]? <;> rfl
    rw [flush_of_buffer_eq_nil hempty]
    exact ⟨rfl, rfl⟩

theorem does_flushAll {l : Logger K} (h : Opened l) : Does l l.flushAll fun _ => [.flush] := by
  have hkeys : ∀ key ∈ l.buffers.keys, l.files.contains key = true := by
    intro key hmem
    rw [contains_iff]
    by_contra hnone
    have hbuffer := h.files_of_buffers key (by simpa using hnone)
    rw [Std.TreeMap.mem_keys, Std.TreeMap.mem_iff_contains, contains_iff, hbuffer] at hmem
    cases hmem
  have hdoes := does_flushKeys h hkeys
  refine ⟨hdoes.opened, hdoes.startTime, ?_, ?_⟩
  · intro key
    exact (hdoes.view key).trans (flush_buffered l key).1
  · intro key
    refine (hdoes.written key).trans ((flush_buffered l key).2.trans ?_)
    exact (List.append_nil _).symm

theorem does_closeAll {l : Logger K} (h : Opened l) : Does l l.closeAll fun _ => [.close] := by
  have hdoes := does_flushAll h
  have hclear : Opened l.closeAll.1 := by
    refine ⟨?_, fun _ _ => Std.TreeMap.getElem?_emptyc⟩
    intro key file hfile
    have hnone : (∅ : Std.TreeMap Text OFStream)[key]? = some file := hfile
    rw [Std.TreeMap.getElem?_emptyc] at hnone
    cases hnone
  refine ⟨hclear, hdoes.startTime, ?_, hdoes.written⟩
  intro key
  have hnone : l.closeAll.1.files[key]? = none := Std.TreeMap.getElem?_emptyc
  rw [view, hnone]
  rfl

/-! ## Runs -/

/-- **To each key the logger is a buffered writer.** -/
theorem view_calls {l : Logger K} (h : Opened l) (e : Call K × LogEnv)
    (hopens : ∀ file, e.2.opens file = true) :
    Opened (calls l e).1 ∧ (calls l e).1.startTime = startAfter l.startTime e ∧
      ∀ key, (calls l e).1.view key =
          (writer BUFFER_SIZE).after (l.view key) (ops key l.startTime e) ∧
        written key (calls l e).2 =
          (writer BUFFER_SIZE).trace (l.view key) (ops key l.startTime e) := by
  obtain ⟨call, env⟩ := e
  cases call with
  | initializeComponents components =>
    have hopened : Opened ({ l with startTime := env.now, sessionTimestamp := env.localTime } :
        Logger K) := ⟨h.open_files, h.files_of_buffers⟩
    have hdoes := does_openComponents hopens components hopened
    exact ⟨hdoes.opened, hdoes.startTime, hdoes.both⟩
  | log call =>
    have hdoes := does_log h hopens call
    exact ⟨hdoes.opened, hdoes.startTime, hdoes.both⟩
  | flushAll =>
    have hdoes := does_flushAll h
    exact ⟨hdoes.opened, hdoes.startTime, hdoes.both⟩
  | closeAll =>
    have hdoes := does_closeAll h
    exact ⟨hdoes.opened, hdoes.startTime, hdoes.both⟩

theorem written_trace {es : List (Call K × LogEnv)} {l : Logger K} (h : Opened l)
    (hopens : ∀ e ∈ es, ∀ file, e.2.opens file = true) (key : Text) :
    written key (calls.trace l es) =
      (writer BUFFER_SIZE).trace (l.view key) (opsOf key l.startTime es) := by
  induction es generalizing l with
  | nil => rfl
  | cons e es ih =>
    obtain ⟨hopened, hstart, hkeys⟩ := view_calls h e (hopens e List.mem_cons_self)
    obtain ⟨hview, hwritten⟩ := hkeys key
    have hrest := ih hopened fun f hf => hopens f (List.mem_cons_of_mem _ hf)
    rw [Machine.trace_cons, written_append, hwritten, hrest, hview, hstart, opsOf,
      Machine.trace_append]

theorem opsOf_append (key : Text) (startTime : Int) (es fs : List (Call K × LogEnv)) :
    opsOf key startTime (es ++ fs) =
      opsOf key startTime es ++ opsOf key (es.foldl startAfter startTime) fs := by
  induction es generalizing startTime with
  | nil => rfl
  | cons e es ih => rw [List.cons_append, opsOf, opsOf, ih, List.append_assoc, List.foldl_cons]

theorem logged_append (key : Text) (startTime : Int) (es fs : List (Call K × LogEnv)) :
    logged key startTime (es ++ fs) =
      logged key startTime es ++ logged key (es.foldl startAfter startTime) fs := by
  rw [← puts_opsOf, opsOf_append, puts_append, puts_opsOf, puts_opsOf]

theorem length_logged_le (key : Text) (startTime : Int) (es : List (Call K × LogEnv)) :
    (logged key startTime es).length ≤ es.length := by
  induction es generalizing startTime with
  | nil => exact Nat.le_refl 0
  | cons e es ih =>
    have hone : (entries key startTime e).length ≤ 1 := by
      unfold entries
      split
      · split
        · exact Nat.le_refl 1
        · exact Nat.zero_le 1
      · exact Nat.zero_le 1
    have hrest := ih (startAfter startTime e)
    rw [logged, List.length_append, List.length_cons]
    omega

/-- Calls of `log` put in what they log, and do no more. -/
theorem opsOf_of_logs {es : List (Call K × LogEnv)} (h : ∀ e ∈ es, ∃ call, e.1 = .log call)
    (key : Text) (startTime : Int) :
    opsOf key startTime es = (logged key startTime es).map .put := by
  induction es generalizing startTime with
  | nil => rfl
  | cons e es ih =>
    obtain ⟨call, env⟩ := e
    obtain ⟨call', rfl⟩ := h _ List.mem_cons_self
    rw [opsOf, logged, List.map_append, ih fun e he => h e (List.mem_cons_of_mem _ he)]
    rfl

theorem view_new (dir key : Text) : (new dir : Logger K).view key = closed := by
  have hnone : (new dir : Logger K).files[key]? = none := Std.TreeMap.getElem?_emptyc
  rw [view, hnone]

/-- One key of a run that ends with `closeAll`. -/
theorem delivered_key_iff (dir : Text) {es : List (Call K × LogEnv)} {env : LogEnv}
    (hopens : ∀ e ∈ es ++ [(.closeAll, env)], ∀ file, e.2.opens file = true) (key : Text) :
    written key (calls.trace (new dir) (es ++ [(.closeAll, env)])) = logged key 0 es ↔
      Lossless BUFFER_SIZE (opsOf key 0 es) := by
  rw [written_trace (opened_new dir) hopens, view_new, ← puts_opsOf, opsOf_append]
  exact written_eq_puts_iff _

/-- **When the logger delivers**: in a run that ends with `closeAll`, what is written of each key is
what was logged under it, each entry once and in order, exactly if no call of the run loses entries
of some key, that is, names it in `initialize` while its stream is open and entries are pending, or
logs under it behind such an `initialize` of its open stream. -/
theorem delivered_iff (dir : Text) (es : List (Call K × LogEnv)) (env : LogEnv)
    (hopens : ∀ e ∈ es, ∀ file, e.2.opens file = true) (hopen : ∀ file, env.opens file = true) :
    (∀ key, written key (calls.trace (new dir) (es ++ [(.closeAll, env)])) = logged key 0 es) ↔
      ∀ key, Lossless BUFFER_SIZE (opsOf key 0 es) := by
  have hall : ∀ e ∈ es ++ [(.closeAll, env)], ∀ file, e.2.opens file = true := by
    intro e he
    rcases List.mem_append.mp he with he | he
    · exact hopens e he
    · rw [List.mem_singleton.mp he]
      exact hopen
  exact forall_congr' (delivered_key_iff dir hall)

/-! ### Two runs -/

def sampleEnv : LogEnv :=
  { now := 0, localTime := "20250101_120000".toList, opens := fun _ => true }

def sampleComponent : Text := "motor".toList

def sampleLog : LogCall Int :=
  { component := sampleComponent, message := "Started".toList, level := .INFO }

theorem delivered_sample :
    let es := [(.initializeComponents [sampleComponent], sampleEnv), (.log sampleLog, sampleEnv)]
    written sampleComponent (calls.trace (new "logs".toList) (es ++ [(.closeAll, sampleEnv)])) =
      [sampleLog.entry 0] := by
  intro es
  refine (delivered_iff "logs".toList es sampleEnv (fun e he file => ?_) fun _ => rfl).mpr ?_
    sampleComponent
  · simp only [es, List.mem_cons, List.not_mem_nil, or_false] at he
    rcases he with rfl | rfl <;> rfl
  · intro key
    by_cases hkey : sampleComponent = key
    · subst hkey
      have hops : opsOf sampleComponent 0 es =
          ([] ++ [.start]) ++ [.put (sampleLog.entry (elapsedMs 0 0))] := rfl
      rw [hops]
      exact lossless_snoc.mpr ⟨lossless_snoc.mpr ⟨lossless_nil, rfl⟩, rfl⟩
    · have hops : opsOf key 0 es = [] := by
        have hkey' : sampleLog.key ≠ key := hkey
        simp [es, opsOf, ops, entries, hkey, hkey']
      rw [hops]
      exact lossless_nil

/-- `initialize` once more, for the same component: the entry that is pending is gone, and so is the
one that follows. -/
theorem reopened_not_delivered :
    let es : List (Call Int × LogEnv) :=
      [(.initializeComponents [sampleComponent], sampleEnv), (.log sampleLog, sampleEnv),
        (.initializeComponents [sampleComponent], sampleEnv), (.log sampleLog, sampleEnv)]
    (logged sampleComponent 0 es).length = 2 ∧
      written sampleComponent
        (calls.trace (new "logs".toList) (es ++ [(.closeAll, sampleEnv)])) = [] := by
  decide +kernel

/-! ## One `initialize`, then entries -/

theorem logged_eq_nil {key : Text} {es : List (Call K × LogEnv)}
    (h : ∀ e ∈ es, ∀ call, e.1 = .log call → call.key ≠ key) (startTime : Int) :
    logged key startTime es = [] := by
  induction es generalizing startTime with
  | nil => rfl
  | cons e es ih =>
    have hentries : entries key startTime e = [] := by
      obtain ⟨call, env⟩ := e
      cases call with
      | log call => exact if_neg (h _ List.mem_cons_self call rfl)
      | _ => rfl
    rw [logged, hentries, ih fun e he => h e (List.mem_cons_of_mem _ he)]
    rfl

theorem opsOf_of_calls {run : List (Call K × LogEnv)} {comp : Text} {logs : List (LogCall K)}
    (hcalls : run.map Prod.fst = .initializeComponents [comp] :: logs.map .log) (key : Text) :
    opsOf key 0 run =
      (if comp = key then [.start] else []) ++ (logged key 0 run).map .put := by
  obtain ⟨⟨call, env⟩, run, rfl, hcall, hrest⟩ := List.map_eq_cons_iff.mp hcalls
  obtain rfl : call = .initializeComponents [comp] := hcall
  have hlogs : ∀ e ∈ run, ∃ call, e.1 = .log call := by
    intro e he
    have hmem : e.1 ∈ logs.map Call.log := hrest ▸ List.mem_map_of_mem he
    obtain ⟨call, -, heq⟩ := List.mem_map.mp hmem
    exact ⟨call, heq.symm⟩
  rw [opsOf, logged, opsOf_of_logs hlogs]
  by_cases hkey : comp = key
  · simp [ops, entries, hkey]
  · simp [ops, entries, hkey]

/-- Such a run loses nothing. -/
theorem lossless_of_calls {run : List (Call K × LogEnv)} {comp : Text} {logs : List (LogCall K)}
    (hcalls : run.map Prod.fst = .initializeComponents [comp] :: logs.map .log) (key : Text) :
    Lossless BUFFER_SIZE (opsOf key 0 run) := by
  rw [opsOf_of_calls hcalls]
  split
  · exact lossless_append_puts (lossless_snoc.mpr ⟨lossless_nil, rfl⟩) rfl _
  · exact lossless_append_puts lossless_nil rfl _

/-- Closed in the end, the logger delivers them all. -/
theorem written_of_closed (dir : Text) {comp : Text} {run : List (Call K × LogEnv)}
    {logs : List (LogCall K)}
    (hopens : ∀ e ∈ run, ∀ file, e.2.opens file = true)
    (hcalls : run.map Prod.fst = .initializeComponents [comp] :: logs.map .log ++ [.closeAll])
    (key : Text) : written key (calls.trace (new dir) run) = logged key 0 run := by
  obtain ⟨es, last, rfl, hes, hlast⟩ := List.map_eq_append_iff.mp hcalls
  obtain ⟨⟨call, env⟩, rfl, hcall⟩ := List.map_eq_singleton_iff.mp hlast
  obtain rfl : call = .closeAll := hcall
  have hlogged : logged key 0 (es ++ [(.closeAll, env)]) = logged key 0 es := by
    rw [logged_append]
    exact List.append_nil _
  rw [hlogged, delivered_key_iff dir hopens]
  exact lossless_of_calls hes key

/-- Closed, it has lost nothing either. -/
theorem lossless_of_closed {run : List (Call K × LogEnv)} {comp : Text} {logs : List (LogCall K)}
    (hcalls : run.map Prod.fst = .initializeComponents [comp] :: logs.map .log ++ [.closeAll])
    (key : Text) : Lossless BUFFER_SIZE (opsOf key 0 run) := by
  obtain ⟨es, last, rfl, hes, hlast⟩ := List.map_eq_append_iff.mp hcalls
  obtain ⟨⟨call, env⟩, rfl, hcall⟩ := List.map_eq_singleton_iff.mp hlast
  obtain rfl : call = .closeAll := hcall
  rw [opsOf_append]
  exact lossless_snoc.mpr ⟨lossless_of_calls hes key, rfl⟩

/-- After a flush all is written that was logged. -/
theorem written_of_flushed (dir : Text) {es : List (Call K × LogEnv)} {env : LogEnv}
    (hopens : ∀ e ∈ es ++ [(.flushAll, env)], ∀ file, e.2.opens file = true) {key : Text}
    (h : Lossless BUFFER_SIZE (opsOf key 0 es)) :
    written key (calls.trace (new dir) (es ++ [(.flushAll, env)])) =
      logged key 0 (es ++ [(.flushAll, env)]) := by
  have hlogged : logged key 0 (es ++ [(.flushAll, env)]) = logged key 0 es := by
    rw [logged_append]
    exact List.append_nil _
  rw [written_trace (opened_new dir) hopens, view_new, hlogged, ← puts_opsOf, opsOf_append]
  exact BufferedWriter.written_of_flushed h

/-- What is logged are the messages of the calls. -/
theorem exists_call_of_mem_logged {key : Text} {startTime : Int} {run : List (Call K × LogEnv)}
    {entry : LogEntry K} (h : entry ∈ logged key startTime run) :
    ∃ call, .log call ∈ run.map Prod.fst ∧ call.key = key ∧ entry.message = call.message := by
  induction run generalizing startTime with
  | nil => cases h
  | cons e run ih =>
    obtain ⟨call, env⟩ := e
    rcases List.mem_append.mp h with h | h
    · cases call with
      | log call =>
        rw [entries] at h
        split at h
        · rename_i hkey
          rw [List.mem_singleton.mp h]
          exact ⟨call, List.mem_cons_self, hkey, rfl⟩
        · cases h
      | _ => cases h
    · obtain ⟨call', hmem, hrest⟩ := ih h
      exact ⟨call', List.mem_cons_of_mem _ hmem, hrest⟩

theorem exists_logged_of_call {call : LogCall K} {run : List (Call K × LogEnv)}
    (h : .log call ∈ run.map Prod.fst) (startTime : Int) :
    ∃ entry ∈ logged call.key startTime run, entry.message = call.message := by
  induction run generalizing startTime with
  | nil => cases h
  | cons e run ih =>
    rcases List.mem_cons.mp h with h | h
    · obtain ⟨call', env⟩ := e
      obtain rfl : .log call = call' := h
      refine ⟨call.entry (elapsedMs startTime env.now), List.mem_append_left _ ?_, rfl⟩
      rw [entries, if_pos rfl]
      exact List.mem_singleton_self _
    · obtain ⟨entry, hmem, hmessage⟩ := ih h (startAfter startTime e)
      exact ⟨entry, List.mem_append_right _ hmem, hmessage⟩

/-- Left open, it has written nothing of a component with too few entries to be flushed. -/
theorem written_of_open (dir : Text) {comp : Text} {run : List (Call K × LogEnv)}
    {logs : List (LogCall K)}
    (hopens : ∀ e ∈ run, ∀ file, e.2.opens file = true)
    (hcalls : run.map Prod.fst = .initializeComponents [comp] :: logs.map .log)
    (hfew : (logged comp 0 run).length < BUFFER_SIZE) :
    written comp (calls.trace (new dir) run) = [] := by
  have hops := opsOf_of_calls hcalls comp
  rw [if_pos rfl] at hops
  have hstart : (new dir : Logger K).startTime = 0 := rfl
  rw [written_trace (opened_new dir) hopens, view_new, hstart, hops, List.singleton_append,
    Machine.trace_cons]
  exact trace_puts_of_lt rfl (by simpa [writer] using hfew)

end Logger

end RobotFramework
