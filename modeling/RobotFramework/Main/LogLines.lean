import RobotFramework.Logger.Files
import RobotFramework.Main.Logs
import RobotFramework.Main.TelemetryText

/-!
# The lines of `main`'s log

Of all that `main` logs only three texts come from outside: the datagram that was received, the
argument on the command line and what the configuration loader said. A newline in one of them makes
lines in the log that are no entries (`log_lines_iff`); the sender of a datagram chooses what they
say.
-/

namespace RobotFramework.Main

open Cxx Moteus Reactive BufferedWriter Lines

variable {K : Type}

/-- An effect that, if it is a log entry, has a message without a newline. -/
def Effect.OneLine : Effect K → Prop
  | .log call => '\n' ∉ call.message
  | _ => True

theorem oneLine_setStop {cfg : Config K} {o : Effect K} (ho : o ∈ setStop cfg) : o.OneLine := by
  simp only [setStop, Telemetry.stopFrames, List.map_map, List.mem_map] at ho
  obtain ⟨p, -, rfl⟩ := ho
  exact trivial

theorem oneLine_arduino {cfg : Config K} {input : Input K} {s : State K} {o : Effect K}
    (ho : o ∈ (arduino cfg input s).2) : o.OneLine := by
  rcases mem_arduino ho with ⟨-, ⟨rfl, -⟩ | rfl | rfl⟩
  · exact trivial
  · exact trivial
  · show '\n' ∉ (if s.cmd.kick then "Sent kick" else if s.cmd.dribble then "Sent dribble"
      else "Sent stop dribble").toList
    split
    · decide
    · split <;> decide

theorem oneLine_shutdown {cfg : Config K} {input : Input K} {s : State K} {o : Effect K}
    (ho : o ∈ (shutdown cfg input s).2) : o.OneLine := by
  rcases mem_shutdown ho with ho | rfl | rfl | rfl | rfl
  · exact oneLine_setStop ho
  · exact trivial
  · show '\n' ∉ "Emergency stop activated, shutting down".toList
    decide
  · exact trivial
  · exact trivial

/-- The receiver logs what it polled. -/
theorem oneLine_receiver_iff [Field K] [LinearOrder K] [Libm K] {cfg : Config K} {input : Input K}
    {s : State K} :
    (∀ o ∈ (receiver cfg input s).2, o.OneLine) ↔
      (s.receives cfg → '\n' ∉ s.udp.receive.2) := by
  by_cases hdue : s.receives cfg
  · rw [iff_true_intro hdue, true_imp_iff]
    by_cases ht : s.udp.receive.2 = TIMEOUT
    · rw [receiver_timeout hdue ht, ht]
      refine iff_of_true (fun o ho => ?_) (by decide)
      rcases List.mem_cons.mp ho with rfl | ho
      · exact trivial
      · simp only [onTimeout] at ho
        split at ho
        · have hmessage : '\n' ∉ "UDP TIMEOUT - stopping motors".toList := by decide
          rw [List.mem_singleton.mp ho]
          exact hmessage
        · cases ho
    · by_cases hs : s.udp.receive.2 = STOP
      · rw [receiver_stop hdue hs, hs]
        refine iff_of_true (fun o ho => ?_) (by decide)
        simp only [onStop, List.mem_cons, List.mem_append, List.not_mem_nil, or_false] at ho
        rcases ho with rfl | (rfl | ho) | rfl | rfl
        · exact trivial
        · show '\n' ∉ "UDP STOP".toList
          decide
        · exact oneLine_setStop ho
        · exact trivial
        · exact trivial
      · have hprefix : '\n' ∉ "Message Recieved: ".toList := by decide
        have hmessage : s.polled.msg = s.udp.receive.2 := rfl
        rw [receiver_command hdue ht hs]
        simp only [onCommand, List.forall_mem_cons, List.not_mem_nil, Effect.OneLine, logSub,
          List.mem_append, hprefix, hmessage, false_or, true_and, IsEmpty.forall_iff, implies_true,
          and_true]
  · rw [receiver_idle hdue]
    exact iff_of_true (fun o ho => by cases ho) fun h => absurd h hdue

section

variable [Field K] [LinearOrder K] [FloorRing K] [Libm K]
variable {cfg : Config K} {input : Input K} {s : State K}

omit [Libm K] in
theorem newline_notMem_toText (d : Double K) : '\n' ∉ d.toText :=
  fun h => absurd (Double.mem_toText h) (by decide)

omit [Libm K] in
theorem newline_notMem_telemetryText (msg : TelemetryMsg K) (tsMs : Int) :
    '\n' ∉ telemetryText msg tsMs := by
  have hkeys : ∀ key ∈ telemetryKeys, '\n' ∉ key := by decide
  rw [telemetryText_eq]
  intro hmem
  rcases mem_intercalate hmem with heq | ⟨field, hfield, hmem⟩
  · cases heq
  · rw [← List.map_uncurry_zip_eq_zipWith] at hfield
    obtain ⟨⟨key, value⟩, hpair, rfl⟩ := List.mem_map.mp hfield
    obtain ⟨hkey, hvalue⟩ := List.of_mem_zip hpair
    have hvalue' : '\n' ∉ value := notMem_telemetryValues rfl (by decide) hvalue
    simp [keyValue, hkeys key hkey, hvalue'] at hmem

omit [Libm K] in
theorem oneLine_camera {o : Effect K} (ho : o ∈ (camera cfg s).2) : o.OneLine := by
  have hball : '\n' ∉ "ball_detected=".toList := by decide
  have hflag : '\n' ∉ (if s.ballObservation.found then "true".toList else "false".toList) := by
    cases s.ballObservation.found <;> decide
  have hpx : '\n' ∉ " px=".toList := by decide
  have hpy : '\n' ∉ " py=".toList := by decide
  have hr : '\n' ∉ " r=".toList := by decide
  have hb : '\n' ∉ " b=".toList := by decide
  have hc : '\n' ∉ " c=".toList := by decide
  unfold camera at ho
  dsimp only at ho
  split at ho
  · rw [List.mem_singleton.mp ho]
    simp only [Effect.OneLine, logSub, List.mem_append, hball, hflag, hpx, hpy, hr, hb, hc,
      newline_notMem_toText, or_false, not_false_eq_true]
  · cases ho

theorem oneLine_motor {o : Effect K} (ho : o ∈ (motor cfg input s).2) : o.OneLine := by
  rcases mem_motor ho with ⟨-, ⟨p, -, rfl⟩ | ⟨p, -, ho⟩⟩
  · exact trivial
  · rcases mem_logMotor ho with ⟨data, rfl⟩ | rfl
    · exact List.not_mem_nil
    · show '\n' ∉ "Overcurrent detected".toList
      decide

omit [Libm K] in
theorem oneLine_sender {o : Effect K} (ho : o ∈ (sender cfg s).2) : o.OneLine := by
  unfold sender at ho
  dsimp only at ho
  split at ho
  · rcases List.mem_cons.mp ho with rfl | ho
    · exact newline_notMem_telemetryText _ _
    · rw [List.mem_singleton.mp ho]
      exact trivial
  · cases ho

/-- **A step logs lines** exactly if what it polls is one. -/
theorem oneLine_next_iff :
    (∀ o ∈ (next cfg input s).2, o.OneLine) ↔ ∀ msg ∈ polls (next cfg input s).2, '\n' ∉ msg := by
  rw [polls_next]
  -- No step but the receiver's logs what was sent to the robot.
  by_cases hpc : s.pc = .receiver
  · have hnext : next cfg input s = receiver cfg input s := by rw [next, hpc]
    rw [hnext, oneLine_receiver_iff]
    by_cases hdue : s.receives cfg
    · simp [hpc, hdue]
    · simp [hpc, hdue]
  · rw [if_neg fun h => hpc h.1]
    refine iff_of_true (fun o ho => ?_) (by simp)
    unfold next at ho
    cases hs : s.pc with
    | head =>
      obtain ⟨currentTime, timers, heq⟩ := head_eq input s
      simp only [hs, heq] at ho
      cases ho
    | receiver => exact absurd hs hpc
    | camera =>
      simp only [hs] at ho
      exact oneLine_camera ho
    | motor =>
      simp only [hs] at ho
      exact oneLine_motor ho
    | sender =>
      simp only [hs] at ho
      exact oneLine_sender ho
    | arduino =>
      simp only [hs] at ho
      exact oneLine_arduino ho
    | shutdown =>
      simp only [hs] at ho
      exact oneLine_shutdown ho
    | exited =>
      simp only [hs] at ho
      cases ho

theorem oneLine_trace_iff (es : List (Event K)) (s : State K) :
    (∀ o ∈ (process cfg).trace s es, o.OneLine) ↔
      ∀ msg ∈ polls ((process cfg).trace s es), '\n' ∉ msg := by
  induction es generalizing s with
  | nil => simp
  | cons e es ih =>
    -- An event that is no step logs nothing.
    have hstep : (∀ o ∈ (process cfg s e).2, o.OneLine) ↔
        ∀ msg ∈ polls (process cfg s e).2, '\n' ∉ msg := by
      cases e with
      | step input => exact oneLine_next_iff
      | arrive d => simp [process]
      | signal => simp [process]
      | observe obs => simp [process]
    rw [Machine.trace_cons, polls_append, List.forall_mem_append, List.forall_mem_append, hstep, ih]

end

/-! ## The start -/

theorem oneLine_log {message : Text} {level : LogLevel} :
    (log message level : Effect K).OneLine ↔ '\n' ∉ message := Iff.rfl

theorem oneLine_logSub {sub message : Text} {level : LogLevel} :
    (logSub sub message level : Effect K).OneLine ↔ '\n' ∉ message := Iff.rfl

theorem oneLine_port {text : Text} (htext : '\n' ∉ text) (port : Int) :
    (log (text ++ intText port) .LOVE : Effect K).OneLine := by
  rw [oneLine_log, List.mem_append, not_or]
  exact ⟨htext, newline_notMem_intText port⟩

/-- A flag that is not known is logged as it is. -/
theorem oneLine_parseMode_iff (argv1 : Option Text) :
    (∀ o ∈ (parseMode (K := K) argv1).2, o.OneLine) ↔ ∀ arg, argv1 = some arg → '\n' ∉ arg := by
  unfold parseMode
  cases argv1 with
  | none => simp [oneLine_log]
  | some arg =>
    simp only [Option.some.injEq, forall_eq']
    split_ifs with hs hc hu
    · refine iff_of_true (by simp [oneLine_log]) ?_
      rcases hs with rfl | rfl <;> decide
    · refine iff_of_true (by simp [oneLine_log]) ?_
      rcases hc with rfl | rfl <;> decide
    · refine iff_of_true (by simp [oneLine_log]) ?_
      rw [hu]
      decide
    · simp [oneLine_log]

theorem oneLine_configLogs_iff [Field K] (w : World K) :
    (∀ o ∈ w.configLogs, o.OneLine) ↔ ∀ what, w.mainConfig = .error what → '\n' ∉ what := by
  have hdata : ∀ (data : Std.TreeMap String (Double K)) (level : LogLevel),
      (Effect.log { component := rframework, numericData := data, level := level }).OneLine :=
    fun _ _ => List.not_mem_nil
  unfold World.configLogs
  cases hconfig : w.mainConfig with
  | ok config => simp [oneLine_log, hdata]
  | error what => simp [oneLine_log, hdata]

/-- The start logs lines, but for the argument and the error. -/
theorem oneLine_startup_iff [Field K] [Libm K] (w : World K) :
    (∀ o ∈ w.startup, o.OneLine) ↔
      (∀ arg, w.argv1 = some arg → '\n' ∉ arg) ∧
        ∀ what, w.mainConfig = .error what → '\n' ∉ what := by
  have hstop : ∀ o ∈ setStop w.config, o.OneLine := fun _ ho => oneLine_setStop ho
  have hcam : ∀ o ∈ (if w.openCam then
      [logSub "camball".toList "Camera thread started".toList .INFO] else [] : List (Effect K)),
      o.OneLine := by
    have hstarted : '\n' ∉ "Camera thread started".toList := by decide
    intro o ho
    split at ho
    · rw [List.mem_singleton.mp ho]
      exact hstarted
    · cases ho
  have hstarting : (log "--- ROBOTFRAMEWORK STARTING ---".toList .LOVE : Effect K).OneLine := by
    rw [oneLine_log]
    decide
  have hsearch : (logSub "arduino".toList "Searching for Arduino...".toList .INFO :
      Effect K).OneLine := by
    rw [oneLine_logSub]
    decide
  have hconnect : (logSub "arduino".toList "Connecting to Arduino port...".toList .INFO :
      Effect K).OneLine := by
    rw [oneLine_logSub]
    decide
  have hsent : (log "Sent stop to all controllers".toList .DONE : Effect K).OneLine := by
    rw [oneLine_log]
    decide
  have hsending (port : Int) :
      (log ("Sending port at: ".toList ++ intText port) .LOVE : Effect K).OneLine :=
    oneLine_port (by decide) port
  have hreceiving (port : Int) :
      (log ("Recieving port at: ".toList ++ intText port) .LOVE : Effect K).OneLine :=
    oneLine_port (by decide) port
  have hloop : (log "Entering main control loop".toList .LOVE : Effect K).OneLine := by
    rw [oneLine_log]
    decide
  unfold World.startup
  simp only [List.forall_mem_append, List.forall_mem_cons, iff_true_intro hstop,
    iff_true_intro hcam, oneLine_parseMode_iff, oneLine_configLogs_iff, hstarting, hsearch,
    hconnect, hsent, hsending, hreceiving, hloop, List.not_mem_nil, IsEmpty.forall_iff,
    implies_true, and_true, true_and]

/-! ## The lines of a run -/

theorem own_of_ofSub {call : LogCall K} (h : (Effect.log call).OfSub) : call.Own rframework := by
  obtain ⟨hcomponent, sub, hsub, -, hother⟩ := h
  refine ⟨hcomponent, ?_⟩
  rw [hsub]
  exact fun heq => hother (Option.some.inj heq)

theorem own_of_mem_shutdown {cfg : Config K} {input : Input K} {s : State K} {call : LogCall K}
    (h : .log call ∈ (shutdown cfg input s).2) : call.Own rframework := by
  rcases mem_shutdown h with h | h | h | h | h
  · exact own_of_ofSub (ofSub_setStop h)
  · cases h
  · cases h
    exact ⟨rfl, by simp⟩
  · cases h
  · cases h

namespace World

variable [Field K] [LinearOrder K] [FloorRing K] [Libm K] {w : World K} {es : List (Event K)}

theorem oneLine_history_iff :
    (∀ o ∈ w.history es, o.OneLine) ↔ (∀ msg ∈ polls (w.history es), '\n' ∉ msg) ∧
      (∀ arg, w.argv1 = some arg → '\n' ∉ arg) ∧
      ∀ what, w.mainConfig = .error what → '\n' ∉ what := by
  rw [polls_history, history, List.forall_mem_append, oneLine_startup_iff, oneLine_trace_iff]
  exact and_comm

/-- All that `main` logs it logs as `rframework`, under keys with files of their own. -/
theorem own_of_mem_history {call : LogCall K} (h : .log call ∈ w.history es) :
    call.Own rframework := by
  rcases List.mem_append.mp h with h | h
  · rcases log_or_stop_of_mem_startup h with ⟨call', heq, hown⟩ | hstop
    · cases heq
      exact hown
    · exact own_of_ofSub (ofSub_setStop hstop)
  · obtain ⟨pre, e, post, rfl, hstep⟩ := Machine.mem_trace.mp h
    cases e with
    | step input =>
      rcases ofSub_or_shutdown hstep with hsub | hpc
      · exact own_of_ofSub hsub
      · have hnext : process w.config ((process w.config).after w.start pre) (.step input) =
            shutdown w.config input ((process w.config).after w.start pre) := by
          show next w.config input ((process w.config).after w.start pre) = _
          rw [next, hpc]
        rw [hnext] at hstep
        exact own_of_mem_shutdown hstep
    | arrive d => cases hstep
    | signal => cases hstep
    | observe obs => cases hstep

theorem callOf_of_mem_loggerCalls {call : Logger.Call K} (h : call ∈ loggerCalls (w.history es)) :
    Logger.CallOf rframework call := by
  obtain ⟨o, ho, heq⟩ := List.mem_filterMap.mp h
  cases o with
  | log call =>
    cases heq
    exact own_of_mem_history ho
  | closeLogs =>
    cases heq
    exact trivial
  | _ => cases heq

/-- `main` loses none of its entries as long as it can flush them. -/
theorem lossless_logRun {run : List (Logger.Call K × LogEnv)}
    (hrun : run.map Prod.fst = w.logRun es) (key : Text) :
    Lossless BUFFER_SIZE (Logger.opsOf key 0 run) := by
  by_cases hclose : Effect.closeLogs ∈ w.history es
  · rcases List.mem_append.mp hclose with hmem | hmem
    · exact absurd hmem w.closeLogs_not_mem_startup
    · obtain ⟨pre, input, post, rfl, hdown⟩ := shutdown_of_mem_trace hmem trivial
      obtain ⟨logs, hlogs⟩ := loggerCalls_of_shutdown hdown input post
      rw [logRun, hlogs] at hrun
      exact Logger.lossless_of_closed hrun key
  · obtain ⟨logs, hlogs⟩ := exists_logs hclose
    rw [logRun, hlogs] at hrun
    exact Logger.lossless_of_calls hrun key

/-- The file that an entry of a call goes to, in a run of the logger. -/
def logFile (dir : Text) (run : List (Logger.Call K × LogEnv)) (call : LogCall K) : Text :=
  (Logger.calls.after (Logger.new dir) run).filename call.component call.stem

/-- After a flush, the file of a key holds what was logged under it. -/
theorem contents_logFile (dir : Text) {run : List (Logger.Call K × LogEnv)}
    (hopens : ∀ e ∈ run, ∀ file, e.2.opens file = true) (hstamp : ∀ e ∈ run, e.2.localTime ≠ [])
    (hrun : run.map Prod.fst = w.logRun es ++ [.flushAll]) {call : LogCall K}
    (hown : call.Own rframework) :
    Logger.contents (logFile dir run call) (Logger.calls.trace (Logger.new dir) run) =
        Logger.fileText call.key (Logger.calls.trace (Logger.new dir) run) ∧
      Logger.written call.key (Logger.calls.trace (Logger.new dir) run) =
        Logger.logged call.key 0 run := by
  obtain ⟨calls, last, rfl, hcalls, hlast⟩ := List.map_eq_append_iff.mp hrun
  obtain ⟨⟨_, env⟩, rfl, rfl⟩ := List.map_eq_singleton_iff.mp hlast
  refine ⟨?_, Logger.written_of_flushed dir hopens (lossless_logRun hcalls call.key)⟩
  obtain ⟨⟨_, start⟩, rest, rfl, rfl, hrest⟩ := List.map_eq_cons_iff.mp hcalls
  have hcallOf : ∀ e ∈ rest ++ [(.flushAll, env)], Logger.CallOf rframework e.1 := by
    intro e he
    rcases List.mem_append.mp he with he | he
    · exact callOf_of_mem_loggerCalls (hrest ▸ List.mem_map_of_mem he)
    · rw [List.mem_singleton.mp he]
      exact trivial
  exact Logger.contents_eq_fileText dir (hstamp _ List.mem_cons_self) hcallOf hown

/-- It has a line for each entry exactly if no message breaks. -/
theorem oneLinePerEntry_iff (dir : Text) {run : List (Logger.Call K × LogEnv)}
    (hopens : ∀ e ∈ run, ∀ file, e.2.opens file = true) (hstamp : ∀ e ∈ run, e.2.localTime ≠ [])
    (hrun : run.map Prod.fst = w.logRun es ++ [.flushAll]) {call : LogCall K}
    (hown : call.Own rframework) :
    Logger.OneLinePerEntry (Logger.logged call.key 0 run)
        (Logger.contents (logFile dir run call) (Logger.calls.trace (Logger.new dir) run)) ↔
      ∀ entry ∈ Logger.logged call.key 0 run, '\n' ∉ entry.message := by
  obtain ⟨hcontents, hwritten⟩ := contents_logFile dir hopens hstamp hrun hown
  rw [hcontents, Logger.lines_iff hwritten]

theorem log_mem_logRun_iff {call : LogCall K} {run : List (Logger.Call K × LogEnv)}
    (hrun : run.map Prod.fst = w.logRun es ++ [.flushAll]) :
    .log call ∈ run.map Prod.fst ↔ .log call ∈ w.history es := by
  rw [hrun, logRun, List.cons_append, List.mem_cons, List.mem_append, List.mem_singleton,
    loggerCalls, List.mem_filterMap]
  constructor
  · rintro (h | ⟨o, ho, heq⟩ | h)
    · cases h
    · cases o with
      | log call =>
        cases heq
        exact ho
      | closeLogs => cases heq
      | _ => cases heq
    · cases h
  · exact fun h => .inr (.inl ⟨_, h, rfl⟩)

/-- **One line for each entry**: after a flush, each file of the log holds the entries logged under
its key, a line each, exactly if there is no newline in what was polled, in the argument or in the
error text of the configuration loader. -/
theorem log_lines_iff (w : World K) (es : List (Event K)) (dir : Text)
    {run : List (Logger.Call K × LogEnv)} (hopens : ∀ e ∈ run, ∀ file, e.2.opens file = true)
    (hstamp : ∀ e ∈ run, e.2.localTime ≠ [])
    (hrun : run.map Prod.fst = w.logRun es ++ [.flushAll]) :
    (∀ call : LogCall K, call.Own rframework →
        Logger.OneLinePerEntry (Logger.logged call.key 0 run)
          (Logger.contents (logFile dir run call) (Logger.calls.trace (Logger.new dir) run))) ↔
      (∀ msg ∈ polls (w.history es), '\n' ∉ msg) ∧ (∀ arg, w.argv1 = some arg → '\n' ∉ arg) ∧
        ∀ what, w.mainConfig = .error what → '\n' ∉ what := by
  rw [← oneLine_history_iff]
  constructor
  -- Every message is in the log of some key, and breaks its file if it is broken.
  · intro h o ho
    cases o with
    | log call =>
      have hown := own_of_mem_history ho
      obtain ⟨entry, hentry, hmessage⟩ :=
        Logger.exists_logged_of_call ((log_mem_logRun_iff hrun).mpr ho) 0
      have hline := (oneLinePerEntry_iff dir hopens hstamp hrun hown).mp (h call hown) entry hentry
      rw [hmessage] at hline
      exact hline
    | _ => exact trivial
  · intro h call hown
    rw [oneLinePerEntry_iff dir hopens hstamp hrun hown]
    intro entry hentry
    obtain ⟨call', hcall, -, hmessage⟩ := Logger.exists_call_of_mem_logged hentry
    rw [hmessage]
    exact h _ ((log_mem_logRun_iff hrun).mp hcall)

/-! ### Two datagrams on the bench -/

omit [Field K] [LinearOrder K] [FloorRing K] [Libm K] in
theorem stamped_sampleRun (calls : List (Logger.Call K)) :
    ∀ e ∈ sampleRun calls, e.2.localTime ≠ [] := by
  intro e he
  obtain ⟨call, -, rfl⟩ := List.mem_map.mp he
  exact List.cons_ne_nil _ _

theorem log_lines_command :
    let es := arrival "1 0 0 0 0 0" :: (turn ℝ).take 2
    let run := sampleRun ((bench ℝ).logRun es ++ [.flushAll])
    ∀ call : LogCall ℝ, call.Own rframework →
      Logger.OneLinePerEntry (Logger.logged call.key 0 run)
        (Logger.contents (logFile "logs".toList run call)
          (Logger.calls.trace (Logger.new "logs".toList) run)) := by
  intro es run
  have hpolls : polls ((bench ℝ).history es) = ["1 0 0 0 0 0".toList] := rfl
  refine ((bench ℝ).log_lines_iff es "logs".toList (opens_sampleRun _) (stamped_sampleRun _)
    (sampleRun_fst _)).mpr ⟨?_, ?_, ?_⟩
  · rw [hpolls]
    decide
  · exact fun arg harg => by cases harg
  · exact fun what hwhat => by cases hwhat

/-- A datagram that ends the entry it is logged in, and begins another: that of a `STOP`. -/
theorem log_line_forged :
    let es := arrival "\n00000000 [HATE] UDP STOP" :: (turn ℝ).take 2
    let run := sampleRun ((bench ℝ).logRun es ++ [.flushAll])
    let stop : LogCall ℝ :=
      { component := rframework, sub := some "reciever".toList, message := "UDP STOP".toList,
        level := .HATE }
    let text := Logger.contents (logFile "logs".toList run stop)
      (Logger.calls.trace (Logger.new "logs".toList) run)
    stop.Own rframework ∧ ¬ Logger.OneLinePerEntry (Logger.logged stop.key 0 run) text ∧
      (∀ entry ∈ Logger.logged stop.key 0 run, entry.message ≠ stop.message) ∧
      (stop.entry 0).rendering ∈ text.splitOn '\n' := by
  intro es run stop text
  let message : Text := "Message Recieved: ".toList ++ "\n00000000 [HATE] UDP STOP".toList
  let received : LogCall ℝ := { stop with message := message, level := .INFO }
  have hown : stop.Own rframework := ⟨rfl, by decide⟩
  have hlogged : Logger.logged stop.key 0 run = [received.entry 0] := rfl
  obtain ⟨hcontents, hwritten⟩ := contents_logFile "logs".toList (opens_sampleRun _)
    (stamped_sampleRun _) (sampleRun_fst _) hown
  have htext : text = "00000000 [INFO] Message Recieved: \n00000000 [HATE] UDP STOP\n".toList := by
    show Logger.contents (logFile "logs".toList run stop) _ = _
    rw [hcontents, Logger.fileText_eq, hwritten, hlogged]
    rfl
  have hstop : (stop.entry 0).rendering = "00000000 [HATE] UDP STOP".toList := rfl
  refine ⟨hown, ?_, ?_, ?_⟩
  · rw [oneLinePerEntry_iff "logs".toList (opens_sampleRun _) (stamped_sampleRun _)
      (sampleRun_fst _) hown, hlogged]
    intro h
    have hmessage : '\n' ∈ message := by decide
    exact h _ (List.mem_singleton_self _) hmessage
  · rw [hlogged]
    intro entry hentry
    rw [List.mem_singleton.mp hentry]
    show message ≠ "UDP STOP".toList
    decide
  · rw [htext, hstop]
    decide

end World

end RobotFramework.Main
