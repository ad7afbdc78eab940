import RobotFramework.Main.Startup
import RobotFramework.Main.Voltage

/-!
# The data of the telemetry sender

`sender_msg` is not initialised: its observation is assigned by the camera block and its voltage by
the motor block, each in its own time. What protects the sender from sending it unassigned is that
the timers of the three blocks start together and that the sender has the longest interval: until a
block has run, its timer and the sender's stand where the first iteration put them (`Task.Waits`),
so in the iteration in which the sender is due the block was due before it.
-/

namespace RobotFramework.Main

open Cxx Reactive

variable {K : Type}

/-! ## The blocks, and what they do to the timers -/

def setCamera (timers : Timers) (t : Int) : Timers := { timers with lastCameraTime := t }

def setSender (timers : Timers) (t : Int) : Timers := { timers with lastSenderTime := t }

/-- The timers that the sender's data depends on: camera, motor and sender. -/
def Timers.tasks (t : Timers) : Int × Int × Int :=
  (t.lastCameraTime, t.lastMotorTime, t.lastSenderTime)

/-- The sender is next, and its interval has passed. -/
def State.Sends (s : State K) (cfg : Config K) : Prop :=
  s.pc = .sender ∧ s.due (·.lastSenderTime) cfg.intervals.sender = true

/-- Between two states neither the clock reading nor the timers of the three blocks nor the message
changed. -/
structure State.SameTasks (s s' : State K) : Prop where
  currentTime : s'.currentTime = s.currentTime
  timers : s'.timers.map Timers.tasks = s.timers.map Timers.tasks
  senderMsg : s'.senderMsg = s.senderMsg

theorem State.SameTasks.stamp {s s' : State K} {set : Timers → Int → Timers}
    (h : s.SameTasks s') (hset : ∀ timers t, (set timers t).tasks = timers.tasks) :
    s.SameTasks (s'.stamp set) := by
  refine ⟨h.currentTime, ?_, h.senderMsg⟩
  rw [← h.timers]
  show (s'.timers.map _).map _ = _
  rw [Option.map_map]
  exact congrArg (s'.timers.map ·) (funext fun timers => hset timers _)

theorem arduino_sameTasks {cfg : Config K} {input : Input K} {s : State K} :
    s.SameTasks (arduino cfg input s).1 := by
  have hset : ∀ timers t, (setArduino timers t).tasks = timers.tasks := fun _ _ => rfl
  by_cases hdue : s.commands cfg
  · rw [arduino_due hdue]
    exact State.SameTasks.stamp ⟨rfl, rfl, rfl⟩ hset
  · unfold arduino
    dsimp only
    split
    · refine State.SameTasks.stamp ?_ hset
      split
      · split
        · exact ⟨rfl, rfl, rfl⟩
        · split <;> exact ⟨rfl, rfl, rfl⟩
      · exact ⟨rfl, rfl, rfl⟩
    · exact ⟨rfl, rfl, rfl⟩

section

variable [Field K] [LinearOrder K] {cfg : Config K} {input : Input K} {s : State K}

theorem receiver_sameTasks [Libm K] : s.SameTasks (receiver cfg input s).1 := by
  have hset : ∀ timers t, (setReciver timers t).tasks = timers.tasks := fun _ _ => rfl
  by_cases hdue : s.receives cfg
  · by_cases ht : s.udp.receive.2 = TIMEOUT
    · rw [receiver_timeout hdue ht]
      refine State.SameTasks.stamp ?_ hset
      unfold onTimeout
      dsimp only
      split <;> exact ⟨rfl, rfl, rfl⟩
    · by_cases hs : s.udp.receive.2 = STOP
      · rw [receiver_stop hdue hs]
        exact State.SameTasks.stamp ⟨rfl, rfl, rfl⟩ hset
      · rw [receiver_command hdue ht hs]
        refine State.SameTasks.stamp ?_ hset
        exact State.SameTasks.stamp ⟨rfl, rfl, rfl⟩ fun _ _ => rfl
  · rw [receiver_idle hdue]
    exact ⟨rfl, rfl, rfl⟩

end

section

variable [Field K] [LinearOrder K] [FloorRing K] [Libm K] {cfg : Config K} {s : State K}

omit [Libm K] in
theorem camera_idle (h : ¬ s.due (·.lastCameraTime) cfg.intervals.camera = true) :
    camera cfg s = ({ s with pc := .motor }, []) := if_neg h

omit [Libm K] in
theorem camera_due (h : s.due (·.lastCameraTime) cfg.intervals.camera = true) :
    (camera cfg s).1 = ({ s with
      pc := .motor
      senderMsg := { s.senderMsg with
        obs := s.ballObservation
        ballPresent := s.ballObservation.found } } : State K).stamp setCamera :=
  congrArg Prod.fst (if_pos h)

omit [Libm K] in
theorem sender_idle (h : ¬ s.due (·.lastSenderTime) cfg.intervals.sender = true) :
    sender cfg s = ({ s with pc := .arduino }, []) := if_neg h

omit [Libm K] in
theorem sender_due (h : s.due (·.lastSenderTime) cfg.intervals.sender = true) :
    sender cfg s =
      (({ s with
          pc := .arduino
          udp := (s.udp.send (telemetryText s.senderMsg (s.currentTime.tdiv 1000000))).2 } :
            State K).stamp setSender,
        [logSub "sender".toList (telemetryText s.senderMsg (s.currentTime.tdiv 1000000)) .INFO,
          .sendTo s.udp.targetAddr
            (telemetryText s.senderMsg (s.currentTime.tdiv 1000000))]) := if_pos h

end

/-! ## The two tasks that fill the message -/

/-- The blocks that assign a field of `sender_msg`. -/
inductive Task where
  | camera
  | motor
deriving DecidableEq

namespace Task

def place : Task → Pc
  | .camera => .camera
  | .motor => .motor

def last : Task → Timers → Int
  | .camera => Timers.lastCameraTime
  | .motor => Timers.lastMotorTime

def interval (intervals : Intervals) : Task → Int
  | .camera => intervals.camera
  | .motor => intervals.motor

/-- The places between the block and the end of the sender's. -/
def behind : Task → List Pc
  | .camera => [.motor, .sender]
  | .motor => [.sender]

theorem notMem_behind (task : Task) (pc : Pc) (hmotor : pc ≠ .motor) (hsender : pc ≠ .sender) :
    pc ∉ task.behind := by
  cases task <;> simp [behind, hmotor, hsender]

theorem motor_notMem_behind : Pc.motor ∉ Task.motor.behind := by decide

/-- The block is next, and its interval has passed. -/
def Executes (task : Task) (s : State K) (cfg : Config K) : Prop :=
  s.pc = task.place ∧ s.due task.last (task.interval cfg.intervals) = true

/-- The block has not run yet: its timer is still where it started, with the sender's, and behind
the block its interval had not passed. -/
def Waits (task : Task) (s : State K) (cfg : Config K) : Prop :=
  ∀ timers, s.timers = some timers →
    task.last timers = timers.lastSenderTime ∧
      (s.pc ∈ task.behind →
        ¬ task.interval cfg.intervals * 1000000 ≤ s.currentTime - task.last timers)

/-- As long as the block waits, the sender is not due behind it. -/
theorem Waits.not_sends {task : Task} {s : State K} {cfg : Config K} (h : task.Waits s cfg)
    (hle : task.interval cfg.intervals ≤ cfg.intervals.sender) : ¬ s.Sends cfg := by
  rintro ⟨hpc, hdue⟩
  unfold State.due at hdue
  cases htimers : s.timers with
  | none => simp [htimers] at hdue
  | some timers =>
    obtain ⟨hlast, hnot⟩ := h timers htimers
    have hbehind : s.pc ∈ task.behind := by
      rw [hpc]
      cases task <;> decide
    have hdue' : cfg.intervals.sender * 1000000 ≤ s.currentTime - timers.lastSenderTime := by
      simpa [htimers] using hdue
    have := hnot hbehind
    rw [hlast] at this
    omega

/-- A step that touches neither timer lets the block wait on, if it does not come from in front of
the block with the interval passed. -/
theorem Waits.of_same {task : Task} {s s' : State K} {cfg : Config K} (h : task.Waits s cfg)
    (htime : s'.currentTime = s.currentTime)
    (htimers : s'.timers.map (fun t => (task.last t, t.lastSenderTime)) =
      s.timers.map fun t => (task.last t, t.lastSenderTime))
    (hbehind : s'.pc ∈ task.behind →
      s.pc ∈ task.behind ∨ ¬ s.due task.last (task.interval cfg.intervals) = true) :
    task.Waits s' cfg := by
  intro timers' htimers'
  rw [htimers', Option.map_some] at htimers
  obtain ⟨timers, hsome, hpair⟩ := Option.map_eq_some_iff.mp htimers.symm
  obtain ⟨hlast, hsender⟩ := Prod.mk.inj hpair
  obtain ⟨heq, hnot⟩ := h timers hsome
  refine ⟨by rw [← hlast, ← hsender]; exact heq, fun hpc => ?_⟩
  rw [htime, ← hlast]
  rcases hbehind hpc with hpc | hdue
  · exact hnot hpc
  · simpa [State.due, hsome] using hdue

theorem Waits.of_sameTasks {task : Task} {s s' : State K} {cfg : Config K} (h : task.Waits s cfg)
    (hsame : s.SameTasks s') (hpc : s'.pc ∈ task.behind → s.pc ∈ task.behind) :
    task.Waits s' cfg := by
  refine h.of_same hsame.currentTime ?_ fun hpc' => Or.inl (hpc hpc')
  have := congrArg (Option.map fun p : Int × Int × Int =>
    (match task with | .camera => p.1 | .motor => p.2.1, p.2.2)) hsame.timers
  rw [Option.map_map, Option.map_map] at this
  cases task <;> exact this

/-- The field of the message that the block assigns. -/
def Same (task : Task) (m m' : TelemetryMsg K) : Prop :=
  match task with
  | .camera => m'.obs = m.obs
  | .motor => m'.voltage = m.voltage

theorem same_of_eq {task : Task} {m m' : TelemetryMsg K} (h : m' = m) : task.Same m m' := by
  subst h
  cases task <;> rfl

/-- What a step does that does not execute the block. -/
structure Idle (task : Task) (s s' : State K) (cfg : Config K) : Prop where
  field : task.Same s.senderMsg s'.senderMsg
  waits : task.Waits s cfg → ¬ s.Sends cfg → task.Waits s' cfg

theorem Idle.of_sameTasks {task : Task} {s s' : State K} {cfg : Config K} (h : s.SameTasks s')
    (hpc : s'.pc ∈ task.behind → s.pc ∈ task.behind) : task.Idle s s' cfg :=
  ⟨same_of_eq h.senderMsg, fun hwaits _ => hwaits.of_sameTasks h hpc⟩

theorem idle_head (task : Task) (cfg : Config K) (input : Input K) (s : State K) :
    task.Idle s (head input s).1 cfg := by
  unfold head
  split
  · refine ⟨same_of_eq rfl, fun hwaits _ timers htimers => ⟨?_, fun hpc => ?_⟩⟩
    · obtain rfl := Option.some.inj htimers
      cases hs : s.timers with
      | none => cases task <;> rfl
      | some timers => exact (hwaits timers hs).1
    · exact absurd hpc (notMem_behind task .receiver (by decide) (by decide))
  · refine Idle.of_sameTasks ⟨rfl, rfl, rfl⟩ fun hpc => ?_
    exact absurd hpc (notMem_behind task .shutdown (by decide) (by decide))

section

variable [Field K] [LinearOrder K] [FloorRing K] [Libm K]
variable {task : Task} {cfg : Config K} {s : State K}

omit [Libm K] in
theorem idle_camera (hpc : s.pc = .camera) (h : ¬ task.Executes s cfg) :
    task.Idle s (Main.camera cfg s).1 cfg := by
  by_cases hdue : s.due (·.lastCameraTime) cfg.intervals.camera = true
  · cases task with
    | camera => exact absurd ⟨hpc, hdue⟩ h
    | motor =>
      rw [camera_due hdue]
      refine ⟨rfl, fun hwaits _ => hwaits.of_same rfl ?_ fun hbehind => ?_⟩
      · cases s.timers <;> rfl
      · exact absurd hbehind motor_notMem_behind
  · rw [camera_idle hdue]
    refine ⟨same_of_eq rfl, fun hwaits _ => hwaits.of_same rfl rfl fun hbehind => ?_⟩
    cases task with
    | camera => exact Or.inr hdue
    | motor => exact absurd hbehind motor_notMem_behind

theorem idle_motor {input : Input K} (hpc : s.pc = .motor) (h : ¬ task.Executes s cfg) :
    task.Idle s (Main.motor cfg input s).1 cfg := by
  by_cases hdue : s.cycles cfg
  · cases task with
    | motor => exact absurd ⟨hpc, hdue⟩ h
    | camera =>
      rw [motor_due hdue]
      refine ⟨rfl, fun hwaits _ => hwaits.of_same rfl ?_ fun _ => Or.inl ?_⟩
      · cases s.timers <;> rfl
      · rw [hpc]
        decide
  · rw [motor_idle hdue]
    refine ⟨same_of_eq rfl, fun hwaits _ => hwaits.of_same rfl rfl fun _ => ?_⟩
    cases task with
    | camera =>
      left
      rw [hpc]
      decide
    | motor => exact Or.inr hdue

omit [Libm K] in
theorem idle_sender (hpc : s.pc = .sender) : task.Idle s (sender cfg s).1 cfg := by
  by_cases hdue : s.due (·.lastSenderTime) cfg.intervals.sender = true
  · rw [sender_due hdue]
    exact ⟨same_of_eq rfl, fun _ hnot => absurd ⟨hpc, hdue⟩ hnot⟩
  · rw [sender_idle hdue]
    refine Idle.of_sameTasks ⟨rfl, rfl, rfl⟩ fun hbehind => ?_
    exact absurd hbehind (notMem_behind task .arduino (by decide) (by decide))

/-- What an execution of the block leaves in its field of the message. -/
def Assigned (task : Task) (s : State K) (cfg : Config K) (input : Input K)
    (msg : TelemetryMsg K) : Prop :=
  match task with
  | .camera => msg.obs = s.ballObservation
  | .motor => msg.voltage = averageVoltage input.stack (s.voltages cfg input)

theorem Assigned.of_same {task : Task} {input : Input K} {msg msg' : TelemetryMsg K}
    (h : task.Assigned s cfg input msg) (hsame : task.Same msg msg') :
    task.Assigned s cfg input msg' := by
  cases task with
  | camera => exact hsame.trans h
  | motor => exact hsame.trans h

/-- **A step that does not execute the block** leaves its field alone and lets it wait on. -/
theorem idle_process {e : Event K} (h : ∀ input, e = .step input → ¬ task.Executes s cfg) :
    task.Idle s (process cfg s e).1 cfg := by
  cases e with
  | arrive d => exact Idle.of_sameTasks ⟨rfl, rfl, rfl⟩ id
  | signal => exact Idle.of_sameTasks ⟨rfl, rfl, rfl⟩ id
  | observe obs => exact Idle.of_sameTasks ⟨rfl, rfl, rfl⟩ id
  | step input =>
    have hnot := h input rfl
    show task.Idle s (next cfg input s).1 cfg
    have hbehind : (next cfg input s).1.pc = s.nextPc cfg := next_pc cfg input s
    unfold next at hbehind ⊢
    cases hpc : s.pc with
    | head => exact idle_head task cfg input s
    | receiver =>
      refine Idle.of_sameTasks receiver_sameTasks fun hmem => ?_
      simp only [hpc, State.nextPc] at hbehind
      rw [hbehind] at hmem
      split at hmem
      · exact absurd hmem (notMem_behind task .exited (by decide) (by decide))
      · exact absurd hmem (notMem_behind task .camera (by decide) (by decide))
    | camera => exact idle_camera hpc hnot
    | motor => exact idle_motor hpc hnot
    | sender => exact idle_sender hpc
    | arduino =>
      refine Idle.of_sameTasks arduino_sameTasks fun hmem => ?_
      simp only [hpc, State.nextPc] at hbehind
      rw [hbehind] at hmem
      exact absurd hmem (notMem_behind task .head (by decide) (by decide))
    | shutdown =>
      refine Idle.of_sameTasks ⟨rfl, rfl, rfl⟩ fun hmem => ?_
      exact absurd hmem (notMem_behind task .exited (by decide) (by decide))
    | exited =>
      refine Idle.of_sameTasks ⟨rfl, rfl, rfl⟩ fun hmem => ?_
      simp only [hpc] at hmem
      exact absurd hmem (notMem_behind task .exited (by decide) (by decide))

theorem assigned_of_executes {input : Input K} (h : task.Executes s cfg) :
    task.Assigned s cfg input (process cfg s (.step input)).1.senderMsg := by
  obtain ⟨hpc, hdue⟩ := h
  show task.Assigned s cfg input (next cfg input s).1.senderMsg
  unfold next
  cases task with
  | camera =>
    rw [hpc]
    show (Main.camera cfg s).1.senderMsg.obs = s.ballObservation
    rw [camera_due hdue]
    rfl
  | motor =>
    rw [hpc]
    show (Main.motor cfg input s).1.senderMsg.voltage = _
    rw [motor_due hdue]
    rfl

/-- The block has been executed in a run, and what stands in the message is what its last execution
put there. -/
def Executed (task : Task) (w : World K) (es : List (Event K)) : Prop :=
  ∃ pre input post, es = pre ++ .step input :: post ∧ task.Executes (w.after pre) w.config ∧
    task.Assigned (w.after pre) w.config input (w.after es).senderMsg

/-- **In every run the block has been executed or waits**, given that the sender's interval is not
the shorter one. -/
theorem executed_or_waits (task : Task) {w : World K}
    (hle : task.interval w.config.intervals ≤ w.config.intervals.sender) (es : List (Event K)) :
    task.Executed w es ∨ task.Waits (w.after es) w.config := by
  induction es using List.reverseRecOn with
  | nil =>
    right
    intro timers htimers
    cases htimers
  | append_singleton es e ih =>
    by_cases hexec : ∃ input, e = .step input ∧ task.Executes (w.after es) w.config
    · obtain ⟨input, rfl, hexec⟩ := hexec
      refine Or.inl ⟨es, input, [], rfl, hexec, ?_⟩
      rw [World.after_snoc]
      exact assigned_of_executes hexec
    · have hidle : task.Idle (w.after es) (w.after (es ++ [e])) w.config := by
        rw [World.after_snoc]
        exact idle_process fun input he h => hexec ⟨input, he, h⟩
      rcases ih with ⟨pre, input, post, rfl, hpre, hassigned⟩ | hwaits
      · refine Or.inl ⟨pre, input, post ++ [e], by simp, hpre, ?_⟩
        exact hassigned.of_same hidle.field
      · exact Or.inr (hidle.waits hwaits (hwaits.not_sends hle))

end

end Task

/-- **No telemetry is sent before its data exists.** When the sender is due, the camera and the
motor block have been executed, what `sender_msg` holds comes from their last executions, and that
is what is sent. -/
theorem sender_data_assigned [Field K] [LinearOrder K] [FloorRing K] [Libm K] (w : World K)
    (hcamera : w.config.intervals.camera ≤ w.config.intervals.sender)
    (hmotor : w.config.intervals.motor ≤ w.config.intervals.sender) (es : List (Event K))
    (input : Input K) (hsends : (w.after es).Sends w.config) :
    (∃ pre cameraInput post, es = pre ++ .step cameraInput :: post ∧ (w.after pre).pc = .camera ∧
      (w.after pre).due (·.lastCameraTime) w.config.intervals.camera = true ∧
      (w.after es).senderMsg.obs = (w.after pre).ballObservation) ∧
    (∃ pre motorInput post, es = pre ++ .step motorInput :: post ∧ (w.after pre).pc = .motor ∧
      (w.after pre).due (·.lastMotorTime) w.config.intervals.motor = true ∧
      (w.after es).senderMsg.voltage =
        averageVoltage motorInput.stack ((w.after pre).voltages w.config motorInput)) ∧
    .sendTo (w.after es).udp.targetAddr
        (telemetryText (w.after es).senderMsg ((w.after es).currentTime.tdiv 1000000)) ∈
      (process w.config (w.after es) (.step input)).2 := by
  -- A task that still waits for its first execution waits at least as long as the sender.
  have hexecuted : ∀ task : Task,
      task.interval w.config.intervals ≤ w.config.intervals.sender → task.Executed w es :=
    fun task hle => (task.executed_or_waits hle es).resolve_right fun hwaits =>
      hwaits.not_sends hle hsends
  obtain ⟨pre, cameraInput, post, hes, ⟨hpc, hdue⟩, hobs⟩ := hexecuted .camera hcamera
  obtain ⟨pre', motorInput, post', hes', ⟨hpc', hdue'⟩, hvoltage⟩ := hexecuted .motor hmotor
  refine ⟨⟨pre, cameraInput, post, hes, hpc, hdue, hobs⟩,
    ⟨pre', motorInput, post', hes', hpc', hdue', hvoltage⟩, ?_⟩
  show _ ∈ (next w.config input (w.after es)).2
  unfold next
  rw [hsends.1]
  show _ ∈ (sender w.config (w.after es)).2
  rw [sender_due hsends.2]
  exact List.mem_cons_of_mem _ (List.mem_singleton_self _)

/-- The bench without a configuration file. -/
noncomputable def unconfigured : World ℝ := { World.bench ℝ with mainConfig := .error [] }

/-- Two turns of the loop, a second apart, up to the sender. -/
noncomputable def secondTurn : List (Event ℝ) :=
  turn ℝ ++ List.replicate 4 (.step { Input.bench ℝ with now := 1000000000 })

/-- With the fallback intervals the sender is due a second after the start, and has its data. -/
theorem sender_data_assigned_fallback :
    (unconfigured.after secondTurn).Sends unconfigured.config ∧
    (∃ pre cameraInput post, secondTurn = pre ++ .step cameraInput :: post ∧
      (unconfigured.after secondTurn).senderMsg.obs = (unconfigured.after pre).ballObservation) ∧
    ∃ pre motorInput post, secondTurn = pre ++ .step motorInput :: post ∧
      (unconfigured.after secondTurn).senderMsg.voltage = averageVoltage motorInput.stack
        ((unconfigured.after pre).voltages unconfigured.config motorInput) := by
  have hsends : (unconfigured.after secondTurn).Sends unconfigured.config :=
    ⟨by decide +kernel, by decide +kernel⟩
  obtain ⟨⟨pre, cameraInput, post, hes, -, -, hobs⟩, ⟨pre', motorInput, post', hes', -, -, hvolt⟩,
    -⟩ := sender_data_assigned unconfigured (by decide) (by decide) secondTurn (.bench ℝ) hsends
  exact ⟨hsends, ⟨pre, cameraInput, post, hes, hobs⟩, ⟨pre', motorInput, post', hes', hvolt⟩⟩

end RobotFramework.Main
