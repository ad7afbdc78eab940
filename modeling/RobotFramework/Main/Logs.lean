import Mathlib.Data.Set.List
import RobotFramework.Logger.Delivery
import RobotFramework.Main.Exit

/-!
# What of the log is there when `main` has ended

`main` logs through one `Logger`: entries of its own under the key `rframework`, before the loop and
behind it, and the entries of its blocks under keys of their own. Behind the loop the logger is
closed (the destructor, a second `closeAll`, then finds nothing). The `STOP` branch leaves by
`std::exit`, which closes nothing: what is buffered then is lost, and the entries of the start
always are, being too few to be flushed (`World.log_complete_iff`).
-/

namespace RobotFramework.Main

open Cxx Moteus Reactive BufferedWriter

variable {K : Type}

/-! ## Entries of `main`'s own -/

/-- The call of the logger that an effect is. -/
def Effect.loggerCall : Effect K → Option (Logger.Call K)
  | .log call => some (.log call)
  | .closeLogs => some .closeAll
  | _ => none

/-- An entry under `rframework` itself, or the end of the log. -/
def Effect.OfMain : Effect K → Prop
  | .log call => call.key = rframework
  | .closeLogs => True
  | _ => False

/-- An entry under a `sub` of `rframework`, or no call of the logger. -/
def Effect.OfSub : Effect K → Prop
  | .log call => call.component = rframework ∧
      ∃ sub, call.sub = some sub ∧ sub ≠ [] ∧ sub ≠ rframework
  | .closeLogs => False
  | _ => True

theorem Effect.OfSub.not_ofMain {o : Effect K} (h : o.OfSub) : ¬ o.OfMain := by
  cases o with
  | log call =>
    obtain ⟨hcomponent, sub, hsub, hne, -⟩ := h
    intro hkey
    have hkey : call.key = rframework := hkey
    cases sub with
    | nil => exact hne rfl
    | cons c sub =>
      have hlen := congrArg List.length hkey
      simp [LogCall.key, hsub, hcomponent] at hlen
  | closeLogs => exact absurd h id
  | _ => exact id

theorem ofSub_logSub {sub : Text} (hne : sub ≠ []) (hother : sub ≠ rframework) (message : Text)
    (level : LogLevel) : (logSub sub message level : Effect K).OfSub :=
  ⟨rfl, sub, rfl, hne, hother⟩

theorem ofSub_setStop {cfg : Config K} {o : Effect K} (ho : o ∈ setStop cfg) : o.OfSub := by
  simp only [setStop, Telemetry.stopFrames, List.map_map, List.mem_map] at ho
  obtain ⟨p, -, rfl⟩ := ho
  exact trivial

section

variable [Field K] [LinearOrder K] [Libm K]

theorem ofSub_receiver {cfg : Config K} {input : Input K} {s : State K}
    {o : Effect K} (ho : o ∈ (receiver cfg input s).2) : o.OfSub := by
  by_cases hdue : s.receives cfg
  · by_cases ht : s.udp.receive.2 = TIMEOUT
    · rw [receiver_timeout hdue ht] at ho
      rcases List.mem_cons.mp ho with rfl | ho
      · exact trivial
      · simp only [onTimeout] at ho
        split at ho
        · rw [List.mem_singleton.mp ho]
          exact ofSub_logSub (by decide) (by decide) _ _
        · cases ho
    · by_cases hs : s.udp.receive.2 = STOP
      · rw [receiver_stop hdue hs] at ho
        simp only [onStop, List.mem_cons, List.mem_append, List.not_mem_nil, or_false] at ho
        rcases ho with rfl | (rfl | ho) | rfl | rfl
        · exact trivial
        · exact ofSub_logSub (by decide) (by decide) _ _
        · exact ofSub_setStop ho
        · exact trivial
        · exact trivial
      · rw [receiver_command hdue ht hs] at ho
        simp only [onCommand, List.mem_cons, List.not_mem_nil, or_false] at ho
        rcases ho with rfl | rfl
        · exact trivial
        · exact ofSub_logSub (by decide) (by decide) _ _
  · rw [receiver_idle hdue] at ho
    cases ho

variable [FloorRing K]

omit [Libm K] in
theorem ofSub_camera {cfg : Config K} {s : State K} {o : Effect K}
    (ho : o ∈ (camera cfg s).2) : o.OfSub := by
  unfold camera at ho
  simp only at ho
  split at ho
  · rw [List.mem_singleton.mp ho]
    exact ofSub_logSub (by decide) (by decide) _ _
  · cases ho

theorem ofSub_motor {cfg : Config K} {input : Input K} {s : State K} {o : Effect K}
    (ho : o ∈ (motor cfg input s).2) : o.OfSub := by
  rcases mem_motor ho with ⟨-, ⟨p, -, rfl⟩ | ⟨p, -, ho⟩⟩
  · exact trivial
  · have hsub : "motor-".toList ++ intText p.1 ≠ [] :=
      List.append_ne_nil_of_left_ne_nil (by decide) _
    have hother : "motor-".toList ++ intText p.1 ≠ rframework := by
      have hhead : some 'm' ≠ some 'r' := by decide
      exact fun heq => hhead (congrArg List.head? heq)
    rcases mem_logMotor ho with ⟨data, rfl⟩ | rfl
    · exact ⟨rfl, _, rfl, hsub, hother⟩
    · exact ofSub_logSub hsub hother _ _

omit [Libm K] in
theorem ofSub_sender {cfg : Config K} {s : State K} {o : Effect K}
    (ho : o ∈ (sender cfg s).2) : o.OfSub := by
  unfold sender at ho
  simp only at ho
  split at ho
  · simp only [List.mem_cons, List.not_mem_nil, or_false] at ho
    rcases ho with rfl | rfl
    · exact ofSub_logSub (by decide) (by decide) _ _
    · exact trivial
  · cases ho

omit [FloorRing K] [LinearOrder K] [Field K] [Libm K] in
theorem ofSub_arduino {cfg : Config K} {input : Input K} {s : State K} {o : Effect K}
    (ho : o ∈ (arduino cfg input s).2) : o.OfSub := by
  rcases mem_arduino ho with ⟨-, ⟨rfl, -⟩ | rfl | rfl⟩
  · exact trivial
  · exact trivial
  · exact ofSub_logSub (by decide) (by decide) _ _

variable {cfg : Config K} {s : State K} {o : Effect K}

/-- **Behind the start only the shutdown logs for `main` itself.** -/
theorem ofSub_or_shutdown {input : Input K} (ho : o ∈ (next cfg input s).2) :
    o.OfSub ∨ s.pc = .shutdown := by
  unfold next at ho
  cases hpc : s.pc with
  | shutdown => exact .inr rfl
  | head =>
    obtain ⟨currentTime, timers, heq⟩ := head_eq input s
    simp only [hpc, heq] at ho
    cases ho
  | exited =>
    simp only [hpc] at ho
    cases ho
  | receiver =>
    simp only [hpc] at ho
    exact .inl (ofSub_receiver ho)
  | camera =>
    simp only [hpc] at ho
    exact .inl (ofSub_camera ho)
  | motor =>
    simp only [hpc] at ho
    exact .inl (ofSub_motor ho)
  | sender =>
    simp only [hpc] at ho
    exact .inl (ofSub_sender ho)
  | arduino =>
    simp only [hpc] at ho
    exact .inl (ofSub_arduino ho)

theorem shutdown_of_ofMain {input : Input K} (ho : o ∈ (next cfg input s).2) (hmain : o.OfMain) :
    s.pc = .shutdown :=
  (ofSub_or_shutdown ho).resolve_left fun hsub => hsub.not_ofMain hmain

end

/-! ## The calls of a run -/

/-- The calls that a history makes to the logger. -/
def loggerCalls (h : List (Effect K)) : List (Logger.Call K) := h.filterMap Effect.loggerCall

theorem loggerCalls_append (h k : List (Effect K)) :
    loggerCalls (h ++ k) = loggerCalls h ++ loggerCalls k :=
  List.filterMap_append

/-- Without the end of the log all calls are entries. -/
theorem exists_logs {h : List (Effect K)} (hclose : Effect.closeLogs ∉ h) :
    ∃ logs : List (LogCall K), loggerCalls h = logs.map .log := by
  have hall : ∀ call ∈ loggerCalls h, call ∈ Set.range (Logger.Call.log (K := K)) := by
    intro call hcall
    obtain ⟨o, ho, hmap⟩ := List.mem_filterMap.mp hcall
    cases o with
    | log entry =>
      cases hmap
      exact ⟨entry, rfl⟩
    | closeLogs => exact absurd ho hclose
    | _ => cases hmap
  have hrange : loggerCalls h ∈ Set.range (List.map Logger.Call.log) := by
    rw [Set.range_list_map]
    exact hall
  obtain ⟨logs, heq⟩ := hrange
  exact ⟨logs, heq.symm⟩

theorem loggerCalls_setStop (cfg : Config K) : loggerCalls (setStop cfg) = [] := by
  unfold loggerCalls
  rw [List.filterMap_eq_nil_iff]
  intro o ho
  simp only [setStop, Telemetry.stopFrames, List.map_map, List.mem_map] at ho
  obtain ⟨p, -, rfl⟩ := ho
  rfl

namespace World

variable [Field K] [LinearOrder K] [FloorRing K] [Libm K]

omit [LinearOrder K] [FloorRing K] in
/-- The start does not fill a buffer. -/
theorem length_loggerCalls_startup (w : World K) : (loggerCalls w.startup).length < 100 := by
  have hle : ∀ h : List (Effect K), (loggerCalls h).length ≤ h.length :=
    fun h => List.length_filterMap_le _ h
  have hmode : (parseMode (K := K) w.argv1).2.length ≤ 2 := by
    unfold parseMode
    split
    · simp only
      split_ifs <;> simp
    · simp
  have hconfig : w.configLogs.length ≤ 5 := by
    unfold configLogs
    cases w.mainConfig <;> simp
  have hcam : (if w.openCam then [logSub "camball".toList "Camera thread started".toList .INFO]
      else [] : List (Effect K)).length ≤ 1 := by
    split <;> simp
  have hmode' := (hle _).trans hmode
  have hconfig' := (hle _).trans hconfig
  have hcam' := (hle _).trans hcam
  unfold startup
  simp only [loggerCalls_append, List.length_append, loggerCalls_setStop, List.length_nil]
  have hone := hle [log "--- ROBOTFRAMEWORK STARTING ---".toList .LOVE]
  have htwo := hle [logSub "arduino".toList "Searching for Arduino...".toList .INFO,
    logSub "arduino".toList "Connecting to Arduino port...".toList .INFO]
  have hfour := hle [log "Sent stop to all controllers".toList .DONE,
    log ("Sending port at: ".toList ++ intText w.start.udp.senderPort) .LOVE,
    log ("Recieving port at: ".toList ++ intText w.start.udp.receiverPort) .LOVE,
    log "Entering main control loop".toList .LOVE]
  simp only [List.length_cons, List.length_nil] at hone htwo hfour
  omega

omit [LinearOrder K] [FloorRing K] in
theorem closeLogs_not_mem_startup (w : World K) : Effect.closeLogs ∉ w.startup := by
  intro hmem
  rcases log_or_stop_of_mem_startup hmem with ⟨call, hcall, -⟩ | hstop
  · cases hcall
  · exact (ofSub_setStop hstop).not_ofMain trivial

/-- The shutdown is the last step: what it puts out ends the history, and nothing is polled in it.
-/
theorem history_of_shutdown {w : World K} {pre : List (Event K)}
    (hpc : (w.after pre).pc = .shutdown) (input : Input K) (post : List (Event K)) :
    w.history (pre ++ .step input :: post) =
        w.history pre ++ (shutdown w.config input (w.after pre)).2 ∧
      (w.after (pre ++ .step input :: post)).pc = .exited ∧
      STOP ∉ polls (w.history (pre ++ .step input :: post)) := by
  have hstep : process w.config (w.after pre) (.step input) =
      shutdown w.config input (w.after pre) := by
    show next w.config input (w.after pre) = _
    rw [next, hpc]
  have hexited : (w.after (pre ++ [.step input])).pc = .exited := by
    rw [after_snoc, hstep]
    rfl
  have hsplit : pre ++ .step input :: post = (pre ++ [.step input]) ++ post := by simp
  have hhistory : w.history (pre ++ .step input :: post) =
      w.history pre ++ (shutdown w.config input (w.after pre)).2 := by
    have hquiet : (process w.config).trace (w.after (pre ++ [.step input])) post = [] :=
      trace_exited hexited post
    rw [hsplit, history, Machine.trace_append, ← List.append_assoc]
    show w.history (pre ++ [.step input]) ++ (process w.config).trace (w.after _) post = _
    rw [hquiet, List.append_nil, history_snoc, hstep]
  refine ⟨hhistory, ?_, ?_⟩
  · rw [hsplit, after_append]
    exact after_exited hexited post
  · intro hstop
    have hnone : polls (shutdown w.config input (w.after pre)).2 = [] :=
      polls_of_origin fun o ho => by simp [origin_of_mem_shutdown ho]
    rw [hhistory, polls_append, hnone, List.append_nil] at hstop
    rw [(stop_last hstop).1] at hpc
    cases hpc

/-- What `main` logs for itself behind the start comes from the shutdown. -/
theorem shutdown_of_mem_trace {w : World K} {es : List (Event K)} {o : Effect K}
    (ho : o ∈ (process w.config).trace w.start es) (hmain : o.OfMain) :
    ∃ pre input post, es = pre ++ .step input :: post ∧ (w.after pre).pc = .shutdown := by
  obtain ⟨pre, e, post, rfl, hstep⟩ := Machine.mem_trace.mp ho
  cases e with
  | step input => exact ⟨pre, input, post, rfl, shutdown_of_ofMain hstep hmain⟩
  | arrive d => cases hstep
  | signal => cases hstep
  | observe obs => cases hstep

/-- A process that has ended without a `STOP` has been shut down. -/
theorem shutdown_of_exited {w : World K} {es : List (Event K)} (h : (w.after es).pc = .exited)
    (hstop : STOP ∉ polls (w.history es)) :
    ∃ pre input post, es = pre ++ .step input :: post ∧ (w.after pre).pc = .shutdown := by
  obtain ⟨pre, input, post, rfl, hpc, hexit, hhistory⟩ := last_step h
  refine ⟨pre, input, post, rfl, ?_⟩
  rcases exit_cases hpc hexit with ⟨hs, hdue, hmsg⟩ | hs
  · have hpolls := polls_next w.config input (w.after pre)
    rw [if_pos ⟨hs, hdue⟩, hmsg] at hpolls
    rw [hhistory, polls_append, List.mem_append, not_or, hpolls] at hstop
    exact absurd (List.mem_singleton_self STOP) hstop.2
  · exact hs

/-- Where the shutdown is still to come, the log is open. -/
theorem closeLogs_not_mem_history {w : World K} {pre : List (Event K)}
    (hpc : (w.after pre).pc = .shutdown) : Effect.closeLogs ∉ w.history pre := by
  intro hmem
  rcases List.mem_append.mp hmem with hmem | hmem
  · exact w.closeLogs_not_mem_startup hmem
  · obtain ⟨pre, input, post, rfl, hdown⟩ := shutdown_of_mem_trace hmem trivial
    rw [(history_of_shutdown hdown input post).2.1] at hpc
    cases hpc

theorem loggerCalls_of_shutdown {w : World K} {pre : List (Event K)}
    (hpc : (w.after pre).pc = .shutdown) (input : Input K) (post : List (Event K)) :
    ∃ logs : List (LogCall K),
      loggerCalls (w.history (pre ++ .step input :: post)) = logs.map .log ++ [.closeAll] := by
  obtain ⟨logs, hlogs⟩ := exists_logs (closeLogs_not_mem_history hpc)
  have hdown : ∃ last : LogCall K,
      loggerCalls (shutdown w.config input (w.after pre)).2 = [.log last, .closeAll] := by
    rw [shutdown, loggerCalls_append, loggerCalls_setStop]
    exact ⟨_, rfl⟩
  obtain ⟨last, hlast⟩ := hdown
  refine ⟨logs ++ [last], ?_⟩
  rw [(history_of_shutdown hpc input post).1, loggerCalls_append, hlogs, hlast, List.map_append,
    List.append_assoc]
  rfl

/-- A `STOP` leaves `main` with nothing logged for itself behind the start. -/
theorem not_ofMain_of_stop {w : World K} {es : List (Event K)} (hstop : STOP ∈ polls (w.history es))
    {o : Effect K} (ho : o ∈ (process w.config).trace w.start es) : ¬ o.OfMain := by
  intro hmain
  obtain ⟨pre, input, post, rfl, hdown⟩ := shutdown_of_mem_trace ho hmain
  exact (history_of_shutdown hdown input post).2.2 hstop

theorem closeLogs_not_mem_of_stop {w : World K} {es : List (Event K)}
    (hstop : STOP ∈ polls (w.history es)) : Effect.closeLogs ∉ w.history es := by
  intro hmem
  rcases List.mem_append.mp hmem with hmem | hmem
  · exact w.closeLogs_not_mem_startup hmem
  · exact not_ofMain_of_stop hstop hmem trivial

/-! ## The log of a run -/

/-- The calls of `main` to its logger. -/
def logRun (w : World K) (es : List (Event K)) : List (Logger.Call K) :=
  .initializeComponents [rframework] :: loggerCalls (w.history es)

/-- Of its own `main` has logged nothing but the start where it leaves at a `STOP`. -/
theorem logged_of_stop {w : World K} {es : List (Event K)} (hstop : STOP ∈ polls (w.history es))
    {start loop : List (Logger.Call K × LogEnv)}
    (hloop : loop.map Prod.fst = loggerCalls ((process w.config).trace w.start es)) (env : LogEnv) :
    Logger.logged rframework 0 ((.initializeComponents [rframework], env) :: (start ++ loop)) =
      Logger.logged rframework env.now start := by
  have hother : ∀ e ∈ loop, ∀ call, e.1 = .log call → call.key ≠ rframework := by
    intro e he call hcall hkey
    have hmem : Logger.Call.log call ∈ loggerCalls ((process w.config).trace w.start es) := by
      rw [← hloop, ← hcall]
      exact List.mem_map_of_mem he
    obtain ⟨o, ho, heq⟩ := List.mem_filterMap.mp hmem
    refine not_ofMain_of_stop hstop ho ?_
    cases o with
    | log entry =>
      cases heq
      exact hkey
    | _ => cases heq
  rw [Logger.logged, Logger.logged_append, Logger.logged_eq_nil hother, List.append_nil]
  rfl

/-- A `STOP` leaves the first entries of the log in the buffer. -/
theorem log_lost_of_stop {w : World K} {es : List (Event K)} (hstop : STOP ∈ polls (w.history es))
    (dir : Text) {run : List (Logger.Call K × LogEnv)}
    (hopens : ∀ e ∈ run, ∀ file, e.2.opens file = true) (hrun : run.map Prod.fst = w.logRun es) :
    ∃ entry, entry ∈ Logger.logged rframework 0 run ∧
      entry ∉ Logger.written rframework (Logger.calls.trace (Logger.new dir) run) := by
  obtain ⟨logs, hlogs⟩ := exists_logs (closeLogs_not_mem_of_stop hstop)
  have hcalls : run.map Prod.fst = .initializeComponents [rframework] :: logs.map .log := by
    rw [hrun, logRun, hlogs]
  rw [logRun, history, loggerCalls_append] at hrun
  obtain ⟨⟨_, env⟩, behind, rfl, rfl, hbehind⟩ := List.map_eq_cons_iff.mp hrun
  obtain ⟨start, loop, rfl, hstart, hloop⟩ := List.map_eq_append_iff.mp hbehind
  have hlogged : Logger.logged rframework 0
      ((.initializeComponents [rframework], env) :: (start ++ loop)) =
        Logger.logged rframework env.now start := logged_of_stop hstop hloop env
  -- The start is too short to fill a buffer.
  have hfew : (Logger.logged rframework env.now start).length < BUFFER_SIZE := by
    have hle := Logger.length_logged_le rframework env.now start
    have hstartup := w.length_loggerCalls_startup
    rw [← hstart, List.length_map] at hstartup
    exact Nat.lt_of_le_of_lt hle hstartup
  have hwritten := Logger.written_of_open dir hopens hcalls (by rw [hlogged]; exact hfew)
  have hfirst : ∃ first rest, loggerCalls w.startup = .log first :: rest ∧ first.key = rframework :=
    ⟨_, _, rfl, rfl⟩
  obtain ⟨first, rest, hstartup, hkey⟩ := hfirst
  rw [hstartup] at hstart
  obtain ⟨⟨_, env'⟩, start, rfl, rfl, -⟩ := List.map_eq_cons_iff.mp hstart
  refine ⟨first.entry (Logger.elapsedMs env.now env'.now), ?_, ?_⟩
  · rw [hlogged, Logger.logged, Logger.entries, if_pos hkey]
    exact List.mem_append_left _ List.mem_cons_self
  · rw [hwritten]
    exact List.not_mem_nil

/-- **Which runs leave their log behind**: of a run that has ended every entry is in the file of its
key exactly if no `STOP` was polled; the files then hold each entry once and in order. -/
theorem log_complete_iff (w : World K) {es : List (Event K)} (h : (w.after es).pc = .exited)
    (dir : Text) {run : List (Logger.Call K × LogEnv)}
    (hopens : ∀ e ∈ run, ∀ file, e.2.opens file = true) (hrun : run.map Prod.fst = w.logRun es) :
    ((∀ key : Text, ∀ entry ∈ Logger.logged key 0 run,
        entry ∈ Logger.written key (Logger.calls.trace (Logger.new dir) run)) ↔
      STOP ∉ polls (w.history es)) ∧
    (STOP ∉ polls (w.history es) → ∀ key : Text,
      Logger.written key (Logger.calls.trace (Logger.new dir) run) = Logger.logged key 0 run) := by
  have hcomplete : STOP ∉ polls (w.history es) → ∀ key : Text,
      Logger.written key (Logger.calls.trace (Logger.new dir) run) = Logger.logged key 0 run := by
    intro hstop
    obtain ⟨pre, input, post, rfl, hdown⟩ := shutdown_of_exited h hstop
    obtain ⟨logs, hlogs⟩ := loggerCalls_of_shutdown hdown input post
    rw [logRun, hlogs] at hrun
    exact Logger.written_of_closed dir hopens hrun
  refine ⟨⟨fun hall hstop => ?_, fun hstop key entry hentry => ?_⟩, hcomplete⟩
  · obtain ⟨entry, hlogged, hlost⟩ := log_lost_of_stop hstop dir hopens hrun
    exact hlost (hall rframework entry hlogged)
  · rw [hcomplete hstop key]
    exact hentry

/-! ### Two ways out on the bench -/

/-- A run of the logger in which every file can be opened. -/
def sampleRun (calls : List (Logger.Call K)) : List (Logger.Call K × LogEnv) :=
  calls.map fun call => (call, Logger.sampleEnv)

omit [Field K] [LinearOrder K] [FloorRing K] [Libm K] in
theorem sampleRun_fst (calls : List (Logger.Call K)) : (sampleRun calls).map Prod.fst = calls := by
  rw [sampleRun, List.map_map]
  exact List.map_id calls

omit [Field K] [LinearOrder K] [FloorRing K] [Libm K] in
theorem opens_sampleRun (calls : List (Logger.Call K)) :
    ∀ e ∈ sampleRun calls, ∀ file, e.2.opens file = true := by
  intro e he file
  obtain ⟨call, -, rfl⟩ := List.mem_map.mp he
  rfl

/-- `SIGINT` before the first turn of the loop. -/
theorem log_complete_signal :
    let run := sampleRun ((bench ℝ).logRun [.signal, .step (.bench ℝ), .step (.bench ℝ)])
    Logger.written rframework (Logger.calls.trace (Logger.new "logs".toList) run) =
      Logger.logged rframework 0 run := by
  intro run
  have hpolls : polls ((bench ℝ).history [.signal, .step (.bench ℝ), .step (.bench ℝ)]) = [] := rfl
  have hstop : STOP ∉ polls ((bench ℝ).history [.signal, .step (.bench ℝ), .step (.bench ℝ)]) := by
    rw [hpolls]
    exact List.not_mem_nil
  exact ((bench ℝ).log_complete_iff rfl "logs".toList (opens_sampleRun _) (sampleRun_fst _)).2 hstop
    rframework

/-- A `STOP` in the first turn of the loop. -/
theorem log_lost :
    let es := arrival "STOP" :: (turn ℝ).take 2
    let run := sampleRun ((bench ℝ).logRun es)
    ((bench ℝ).after es).pc = .exited ∧ ∃ entry ∈ Logger.logged rframework 0 run,
      entry ∉ Logger.written rframework (Logger.calls.trace (Logger.new "logs".toList) run) := by
  intro es run
  have hpolls : polls ((bench ℝ).history es) = [STOP] := rfl
  have hstop : STOP ∈ polls ((bench ℝ).history es) := by
    rw [hpolls]
    exact List.mem_singleton_self STOP
  exact ⟨rfl, log_lost_of_stop hstop "logs".toList (opens_sampleRun _) (sampleRun_fst _)⟩

end World

end RobotFramework.Main
