import RobotFramework.Logger.Delivery

/-!
# Files that cannot be opened

`files[key]` inserts the stream before it is opened, and that the key is in `files` is all that is
asked afterwards, by the guard behind the call that failed and by every later one. So a key whose
file could not be opened once stays in `files` with a stream that is closed (`Stuck`): its entries
are buffered and lost, and nobody tries to open the file again until an `initialize` names the key.
-/

namespace RobotFramework

open Cxx Reactive BufferedWriter

namespace Logger

variable {K : Type}

/-! ## Attempts -/

/-- The opens of `initialize`, up to the first that fails. -/
def componentAttempts (env : LogEnv) : List Text → Logger K → List (Text × Bool)
  | [], _ => []
  | comp :: components, l =>
    let l := l.openFile env comp (l.filename comp comp)
    if !l.isOpen comp then [(comp, false)]
    else (comp, true) :: componentAttempts env components (l.clearBuffer comp)

/-- The files that a call tries to open, and whether their streams are open then. -/
def attempts (l : Logger K) : Call K × LogEnv → List (Text × Bool)
  | (.initializeComponents components, env) =>
    componentAttempts env components
      { l with startTime := env.now, sessionTimestamp := env.localTime }
  | (.log call, env) =>
    if l.files.contains call.key then []
    else [(call.key, (l.ensureOpen env call.key call.component call.stem).isOpen call.key)]
  | _ => []

/-- That a failed open is no silent loss, of a run of calls: behind each call the streams are
open; an entry whose stream is not open is not buffered; the next entry tries to open it again; and
what is logged from a successful open on is written in the end. -/
structure RecoversOpens (dir : Text) (run : List (Call K × LogEnv)) : Prop where
  streams : ∀ pre post, run = pre ++ post → ∀ key : Text,
    (calls.after (new dir) pre).files.contains key = true →
      (calls.after (new dir) pre).isOpen key = true
  unbuffered : ∀ pre call env post, run = pre ++ (.log call, env) :: post →
    (calls.after (new dir) (pre ++ [(.log call, env)])).isOpen call.key = false →
      (calls.after (new dir) (pre ++ [(.log call, env)])).buffers[call.key]? =
        (calls.after (new dir) pre).buffers[call.key]?
  retried : ∀ pre call env post, run = pre ++ (.log call, env) :: post →
    (calls.after (new dir) pre).isOpen call.key = false →
      call.key ∈ (attempts (calls.after (new dir) pre) (.log call, env)).map Prod.fst
  delivered : ∀ pre e post (key : Text) env, run = pre ++ e :: post →
    (key, true) ∈ attempts (calls.after (new dir) pre) e →
      logged key (pre.foldl startAfter 0) (e :: post) <:+
        written key (calls.trace (new dir) (run ++ [(.closeAll, env)]))

/-! ## A key that is stuck -/

/-- The key is in `files`, and its stream is closed. -/
def Stuck (l : Logger K) (key : Text) : Prop :=
  ∃ file, l.files[key]? = some file ∧ file.file = none

variable {l : Logger K} {key : Text}

theorem Stuck.contains (h : l.Stuck key) : l.files.contains key = true := by
  obtain ⟨file, hfile, -⟩ := h
  rw [contains_iff, hfile]
  rfl

theorem Stuck.isOpen (h : l.Stuck key) : l.isOpen key = false := by
  obtain ⟨file, hfile, hnone⟩ := h
  rw [Logger.isOpen, hfile]
  simp [OFStream.isOpen, hnone]

theorem stuck_of_isOpen_eq_false (hkey : l.files.contains key = true) (h : l.isOpen key = false) :
    l.Stuck key := by
  rw [contains_iff] at hkey
  obtain ⟨file, hfile⟩ := Option.isSome_iff_exists.mp hkey
  refine ⟨file, hfile, ?_⟩
  rw [Logger.isOpen, hfile] at h
  simpa [OFStream.isOpen] using h

theorem contains_openFile (l : Logger K) (env : LogEnv) (key filename : Text) :
    (l.openFile env key filename).files.contains key = true :=
  Std.TreeMap.contains_insert_self

theorem Stuck.openFile {key' : Text} (h : l.Stuck key) (hne : key' ≠ key) (env : LogEnv)
    (filename : Text) : (l.openFile env key' filename).Stuck key := by
  obtain ⟨file, hfile, hnone⟩ := h
  refine ⟨file, ?_, hnone⟩
  rw [Logger.openFile, getElem?_insert, if_neg hne, hfile]

theorem Stuck.of_files_eq {l' : Logger K} (h : l.Stuck key) (hfiles : l'.files = l.files) :
    l'.Stuck key := by
  obtain ⟨file, hfile, hnone⟩ := h
  exact ⟨file, by rw [hfiles, hfile], hnone⟩

/-- Nothing is written of the key, and it stays stuck. -/
def StaysStuck (key : Text) (r : Logger K × List (Written K)) : Prop :=
  r.1.Stuck key ∧ written key r.2 = []

theorem Stuck.flush (h : l.Stuck key) (key' : Text) : StaysStuck key (l.flush key') := by
  obtain ⟨file, hfile, hnone⟩ := h
  unfold Logger.flush
  by_cases hkey : key' = key
  · subst hkey
    simp only [hfile, Option.getD_some, hnone]
    exact ⟨⟨file, Std.TreeMap.getElem?_insert_self, hnone⟩, rfl⟩
  · have hother : ∀ file', (l.files.insert key' file')[key]? = some file := fun file' => by
      rw [getElem?_insert, if_neg hkey, hfile]
    dsimp only
    split
    · refine ⟨⟨file, hother _, hnone⟩, List.filterMap_eq_nil_iff.mpr fun w hw => if_neg ?_⟩
      rw [key_of_mem_flush hw]
      exact hkey
    · exact ⟨⟨file, hother _, hnone⟩, rfl⟩

theorem Stuck.push (h : l.Stuck key) (key' : Text) (entry : LogEntry K) :
    StaysStuck key (l.push key' entry) := by
  unfold Logger.push
  dsimp only
  split
  · refine Stuck.flush ?_ key'
    exact h.of_files_eq rfl
  · exact ⟨h.of_files_eq rfl, rfl⟩

theorem Stuck.openComponents {env : LogEnv} {components : List Text} (hnot : key ∉ components)
    (h : l.Stuck key) : (Logger.openComponents env components l).1.Stuck key := by
  induction components generalizing l with
  | nil => exact h.of_files_eq rfl
  | cons comp components ih =>
    rw [List.mem_cons, not_or] at hnot
    have hopened := h.openFile (Ne.symm hnot.1) env (l.filename comp comp)
    rw [Logger.openComponents]
    split
    · exact hopened
    · exact ih hnot.2 (hopened.of_files_eq rfl)

theorem Stuck.ensureOpen (h : l.Stuck key) (env : LogEnv) (key' component stem : Text) :
    (l.ensureOpen env key' component stem).Stuck key := by
  cases hnew : l.files.contains key' with
  | true => rwa [ensureOpen_of_contains component stem hnew]
  | false =>
    obtain ⟨l', filename, hfiles, -, -, heq⟩ := ensureOpen_of_new hnew env component stem
    have hne : key' ≠ key := by
      rintro rfl
      rw [h.contains] at hnew
      cases hnew
    have hopened := (h.of_files_eq hfiles).openFile hne env filename
    rw [heq]
    split
    · exact hopened
    · exact hopened.of_files_eq rfl

theorem Stuck.log (h : l.Stuck key) (env : LogEnv) (call : LogCall K) :
    StaysStuck key (l.log env call) := by
  rw [log_eq]
  exact (h.ensureOpen env _ _ _).push _ _

theorem Stuck.flushKeys (h : l.Stuck key) (keys : List Text) :
    StaysStuck key (Logger.flushKeys keys l) := by
  induction keys generalizing l with
  | nil => exact ⟨h, rfl⟩
  | cons key' keys ih =>
    obtain ⟨hflush, hnone⟩ := h.flush key'
    obtain ⟨hrest, hnone'⟩ := ih hflush
    rw [Logger.flushKeys]
    refine ⟨hrest, ?_⟩
    rw [written_append, hnone, hnone']
    rfl

/-- A call that neither closes the logger nor names the key in `initialize`. -/
def LeavesStuck (key : Text) : Call K → Prop
  | .initializeComponents components => key ∉ components
  | .closeAll => False
  | _ => True

theorem Stuck.calls (h : l.Stuck key) {e : Call K × LogEnv} (he : LeavesStuck key e.1) :
    StaysStuck key (Logger.calls l e) := by
  obtain ⟨call, env⟩ := e
  cases call with
  | initializeComponents components =>
    refine ⟨Stuck.openComponents he ?_, rfl⟩
    exact h.of_files_eq rfl
  | log call => exact h.log env call
  | flushAll => exact h.flushKeys _
  | closeAll => exact absurd he id

/-- **A key that is stuck stays so**, and nothing of it is ever written. -/
theorem Stuck.run (h : l.Stuck key) {es : List (Call K × LogEnv)}
    (hes : ∀ e ∈ es, LeavesStuck key e.1) :
    (Logger.calls.after l es).Stuck key ∧ written key (Logger.calls.trace l es) = [] := by
  induction es generalizing l with
  | nil => exact ⟨h, rfl⟩
  | cons e es ih =>
    obtain ⟨hstuck, hnone⟩ := h.calls (hes e List.mem_cons_self)
    obtain ⟨hafter, hrest⟩ := ih hstuck fun f hf => hes f (List.mem_cons_of_mem _ hf)
    refine ⟨hafter, ?_⟩
    rw [Machine.trace_cons, written_append, hnone, hrest]
    rfl

theorem Stuck.closeAll (h : l.Stuck key) : written key l.closeAll.2 = [] :=
  (h.flushKeys _).2

/-! ## How a key gets stuck -/

theorem stuck_of_componentAttempts {env : LogEnv} {components : List Text}
    (h : (key, false) ∈ componentAttempts env components l) :
    (openComponents env components l).1.Stuck key := by
  induction components generalizing l with
  | nil => cases h
  | cons comp components ih =>
    rw [componentAttempts] at h
    rw [openComponents]
    cases hopen : (l.openFile env comp (l.filename comp comp)).isOpen comp with
    | false =>
      rw [hopen] at h
      obtain ⟨rfl, -⟩ := Prod.mk.inj (List.mem_singleton.mp h)
      exact stuck_of_isOpen_eq_false (contains_openFile _ _ _ _) hopen
    | true =>
      rw [hopen] at h
      rcases List.mem_cons.mp h with h | h
      · cases h
      · exact ih h

theorem stuck_ensureOpen {env : LogEnv} {component stem : Text}
    (h : (l.ensureOpen env key component stem).isOpen key = false) :
    (l.ensureOpen env key component stem).Stuck key :=
  stuck_of_isOpen_eq_false (contains_ensureOpen _ _ _ _ _) h

theorem stuck_of_attempts {e : Call K × LogEnv} (h : (key, false) ∈ attempts l e) :
    (Logger.calls l e).1.Stuck key := by
  obtain ⟨call, env⟩ := e
  cases call with
  | initializeComponents components => exact stuck_of_componentAttempts h
  | log call =>
    rw [attempts] at h
    split at h
    · cases h
    · obtain ⟨rfl, hopen⟩ := Prod.mk.inj (List.mem_singleton.mp h)
      show (l.log env call).1.Stuck call.key
      rw [log_eq]
      exact ((stuck_ensureOpen hopen.symm).push _ _).1
  | flushAll => cases h
  | closeAll => cases h

/-! ## What is buffered has a stream -/

/-- Every buffer belongs to a key in `files`. -/
def Backed (l : Logger K) : Prop :=
  ∀ key : Text, l.files.contains key = false → l.buffers[key]? = none

/-- A key without a stream had none before, and its buffer is as it was. -/
def Grows (l l' : Logger K) : Prop :=
  ∀ key : Text, l'.files.contains key = false →
    l.files.contains key = false ∧ l'.buffers[key]? = l.buffers[key]?

variable {l' l'' : Logger K}

theorem Backed.of_grows (h : l.Backed) (hgrows : l.Grows l') : l'.Backed := by
  intro key hkey
  obtain ⟨hold, hbuffer⟩ := hgrows key hkey
  rw [hbuffer, h key hold]

theorem Grows.refl (hfiles : l'.files = l.files) (hbuffers : l'.buffers = l.buffers) :
    l.Grows l' := by
  intro key hkey
  rw [hfiles] at hkey
  exact ⟨hkey, by rw [hbuffers]⟩

theorem Grows.trans (h : l.Grows l') (h' : l'.Grows l'') : l.Grows l'' := by
  intro key hkey
  obtain ⟨hkey', hbuffer'⟩ := h' key hkey
  obtain ⟨hkey, hbuffer⟩ := h key hkey'
  exact ⟨hkey, hbuffer'.trans hbuffer⟩

theorem contains_insert (t : Std.TreeMap Text OFStream) (key key' : Text) (file : OFStream) :
    (t.insert key file).contains key' = (decide (key = key') || t.contains key') := by
  rw [contains_iff, getElem?_insert, contains_iff]
  by_cases h : key = key' <;> simp [h]

theorem grows_openFile (l : Logger K) (env : LogEnv) (key filename : Text) :
    l.Grows (l.openFile env key filename) := by
  intro key' hkey'
  rw [openFile, contains_insert, Bool.or_eq_false_iff] at hkey'
  exact ⟨hkey'.2, rfl⟩

/-- A buffer is replaced whose key has a stream. -/
theorem grows_buffer (hkey : l.files.contains key = true) (buffer : List (LogEntry K)) :
    l.Grows { l with buffers := l.buffers.insert key buffer } := by
  intro key' hkey'
  refine ⟨hkey', ?_⟩
  rw [getElem?_insert, if_neg]
  rintro rfl
  rw [hkey] at hkey'
  cases hkey'

theorem grows_flush (l : Logger K) (key : Text) : l.Grows (l.flush key).1 := by
  have hboth : ∀ file, l.Grows
      { l with files := l.files.insert key file, buffers := l.buffers.insert key [] } := by
    intro file key' hkey'
    rw [contains_insert, Bool.or_eq_false_iff, decide_eq_false_iff_not] at hkey'
    exact ⟨hkey'.2, by rw [getElem?_insert, if_neg hkey'.1]⟩
  unfold flush
  dsimp only
  split <;> exact hboth _

theorem grows_push (hkey : l.files.contains key = true) (entry : LogEntry K) :
    l.Grows (l.push key entry).1 := by
  unfold push
  dsimp only
  split
  · exact (grows_buffer hkey _).trans (grows_flush _ _)
  · exact grows_buffer hkey _

theorem grows_ensureOpen (l : Logger K) (env : LogEnv) (key component stem : Text) :
    l.Grows (l.ensureOpen env key component stem) := by
  cases hnew : l.files.contains key with
  | true =>
    rw [ensureOpen_of_contains component stem hnew]
    exact Grows.refl rfl rfl
  | false =>
    obtain ⟨l', filename, hfiles, hbuffers, -, heq⟩ := ensureOpen_of_new hnew env component stem
    have hopened := (Grows.refl hfiles hbuffers).trans (grows_openFile l' env key filename)
    rw [heq]
    split
    · exact hopened
    · exact hopened.trans (grows_buffer (contains_openFile l' env key filename) [])

theorem grows_openComponents (env : LogEnv) (components : List Text) (l : Logger K) :
    l.Grows (openComponents env components l).1 := by
  induction components generalizing l with
  | nil => exact Grows.refl rfl rfl
  | cons comp components ih =>
    have hopened := grows_openFile l env comp (l.filename comp comp)
    rw [openComponents]
    split
    · exact hopened
    · refine (hopened.trans ?_).trans (ih _)
      exact grows_buffer (contains_openFile l env comp _) []

theorem grows_flushKeys (keys : List Text) (l : Logger K) : l.Grows (flushKeys keys l).1 := by
  induction keys generalizing l with
  | nil => exact Grows.refl rfl rfl
  | cons key keys ih => exact (grows_flush l key).trans (ih _)

theorem backed_calls (h : l.Backed) (e : Call K × LogEnv) : (calls l e).1.Backed := by
  obtain ⟨call, env⟩ := e
  cases call with
  | initializeComponents components =>
    refine h.of_grows (Grows.trans ?_ (grows_openComponents env components _))
    exact Grows.refl rfl rfl
  | log call =>
    show (l.log env call).1.Backed
    rw [log_eq]
    refine h.of_grows ((grows_ensureOpen l env call.key call.component call.stem).trans ?_)
    exact grows_push (contains_ensureOpen _ _ _ _ _) _
  | flushAll => exact h.of_grows (grows_flushKeys _ _)
  | closeAll => exact fun _ _ => Std.TreeMap.getElem?_emptyc

theorem backed_after (dir : Text) (es : List (Call K × LogEnv)) :
    (Logger.calls.after (new dir) es).Backed := by
  refine @Machine.invariant_after _ _ _ calls Backed (new dir) ?_ ?_ es
  · exact fun _ _ => Std.TreeMap.getElem?_emptyc
  · exact fun _ e h => backed_calls h e

/-- The entry whose file could not be opened is buffered all the same. -/
theorem buffers_of_failed_log (h : l.Backed) {env : LogEnv} {call : LogCall K}
    (hfail : (key, false) ∈ attempts l (.log call, env)) :
    (l.log env call).1.buffers[key]? = some [call.entry (elapsedMs l.startTime env.now)] := by
  rw [attempts] at hfail
  split at hfail
  · cases hfail
  · rename_i hnew
    obtain ⟨rfl, hopen⟩ := Prod.mk.inj (List.mem_singleton.mp hfail)
    rw [Bool.not_eq_true] at hnew
    obtain ⟨l', filename, -, hbuffers, hstart, heq⟩ :=
      ensureOpen_of_new hnew env call.component call.stem
    have hclosed : (l'.openFile env call.key filename).isOpen call.key = false := by
      cases hopen' : (l'.openFile env call.key filename).isOpen call.key with
      | false => rfl
      | true =>
        rw [heq, hopen'] at hopen
        exact (hopen.trans hopen').symm
    have hensured : l.ensureOpen env call.key call.component call.stem =
        l'.openFile env call.key filename := by
      rw [heq, hclosed]
      rfl
    have hempty : (l'.openFile env call.key filename).buffers[call.key]? = none := by
      show l'.buffers[call.key]? = none
      rw [hbuffers, h call.key hnew]
    have hstart' : (l'.openFile env call.key filename).startTime = l.startTime := hstart
    rw [log_eq, hensured, push, hempty, hstart']
    exact Std.TreeMap.getElem?_insert_self

/-- **A failed open is final.** -/
theorem failed_open_never_recovers (dir : Text) (pre : List (Call K × LogEnv))
    (e : Call K × LogEnv) (post : List (Call K × LogEnv)) (key : Text)
    (hfail : (key, false) ∈ attempts (calls.after (new dir) pre) e) :
    ¬ RecoversOpens dir (pre ++ e :: post) ∧
    ((calls.after (new dir) (pre ++ [e])).files.contains key = true ∧
      (calls.after (new dir) (pre ++ [e])).isOpen key = false) ∧
    (∀ call env, e = (.log call, env) →
      (calls.after (new dir) (pre ++ [e])).buffers[key]? =
        some [call.entry (elapsedMs (calls.after (new dir) pre).startTime env.now)]) ∧
    ∀ mid, (∀ f ∈ mid, LeavesStuck key f.1) →
      (∀ call env, call.key = key →
        attempts (calls.after (new dir) (pre ++ e :: mid)) (.log call, env) = []) ∧
      ∀ env, written key
        (calls.trace (calls.after (new dir) (pre ++ [e])) (mid ++ [(.closeAll, env)])) = [] := by
  have hstuck : (calls.after (new dir) (pre ++ [e])).Stuck key := by
    rw [Machine.after_snoc]
    exact stuck_of_attempts hfail
  refine ⟨fun h => ?_, ⟨hstuck.contains, hstuck.isOpen⟩, ?_, fun mid hmid => ?_⟩
  · have hopen := h.streams (pre ++ [e]) post (by simp) key hstuck.contains
    rw [hstuck.isOpen] at hopen
    cases hopen
  · rintro call env rfl
    rw [Machine.after_snoc]
    exact buffers_of_failed_log (backed_after dir pre) hfail
  · obtain ⟨hafter, hnone⟩ := hstuck.run hmid
    refine ⟨?_, fun env => ?_⟩
    · rintro call env rfl
      rw [← List.singleton_append, ← List.append_assoc, Machine.after_append]
      rw [attempts, if_pos hafter.contains]
    · rw [Machine.trace_append, written_append, hnone, List.nil_append, Machine.trace_cons,
        Machine.trace_nil, List.append_nil]
      exact hafter.closeAll

/-- No file can be opened. -/
def closedEnv : LogEnv := { sampleEnv with opens := fun _ => false }

/-- The first file of `initialize`. -/
theorem failed_open_never_recovers_component :
    (calls.after (new "logs".toList)
      [(.initializeComponents [sampleComponent], closedEnv),
        ((.log sampleLog, sampleEnv) : Call Int × LogEnv)]).isOpen sampleComponent = false ∧
    ¬ RecoversOpens (K := Int) "logs".toList
      [(.initializeComponents [sampleComponent], closedEnv), (.log sampleLog, sampleEnv)] := by
  obtain ⟨hnot, -, -, -⟩ := failed_open_never_recovers (K := Int) "logs".toList []
    (.initializeComponents [sampleComponent], closedEnv) [(.log sampleLog, sampleEnv)]
    sampleComponent (by decide +kernel)
  exact ⟨by decide +kernel, hnot⟩

/-- The directory is there again when the second entry is logged, and neither is ever written. -/
theorem failed_open_loses_entries :
    let run : List (Call Int × LogEnv) := [(.log sampleLog, closedEnv), (.log sampleLog, sampleEnv)]
    (sampleComponent, false) ∈ attempts (new "logs".toList) (.log sampleLog, closedEnv) ∧
    ¬ RecoversOpens "logs".toList run ∧
    (logged sampleComponent 0 run).length = 2 ∧
    written sampleComponent (calls.trace (new "logs".toList) (run ++ [(.closeAll, sampleEnv)])) =
      [] := by
  intro run
  refine ⟨by decide +kernel, fun h => ?_, by decide +kernel, by decide +kernel⟩
  have hopen := h.streams run [] rfl sampleComponent (by decide +kernel)
  exact absurd hopen (by decide +kernel)

end Logger

end RobotFramework
