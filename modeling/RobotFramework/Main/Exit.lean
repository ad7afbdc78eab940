import RobotFramework.Main.Link
import RobotFramework.Math.WheelReal

/-!
# The ways out

`main` ends in three ways: the receiver ends the process where it polls a `STOP`, and the loop is
left at its head when a motor cycle has raised `emergency_stop` or a signal the manual flag. Every
way stops all controllers, and **nothing commands a velocity once a way out is taken** (`Leaving`):
of the blocks that an emergency stop still lets run none commands one.
-/

namespace RobotFramework.Main

open Cxx Moteus Reactive

variable {K : Type}

/-! ## Frames in a history -/

def Effect.frame? : Effect K → Option (Int × CanFdFrame K)
  | .frame id f => some (id, f)
  | _ => none

def frames (h : List (Effect K)) : List (Int × CanFdFrame K) := h.filterMap Effect.frame?

def framesOf (id : Int) (h : List (Effect K)) : List (CanFdFrame K) :=
  (frames h).filterMap fun p => if p.1 = id then some p.2 else none

def commandsVelocity (f : CanFdFrame K) : Prop := ∃ command, f.command = .position command

theorem frames_append (h k : List (Effect K)) : frames (h ++ k) = frames h ++ frames k :=
  List.filterMap_append

theorem framesOf_append (id : Int) (h k : List (Effect K)) :
    framesOf id (h ++ k) = framesOf id h ++ framesOf id k := by
  unfold framesOf
  rw [frames_append, List.filterMap_append]

theorem mem_frames {h : List (Effect K)} {p : Int × CanFdFrame K} :
    p ∈ frames h ↔ .frame p.1 p.2 ∈ h := by
  unfold frames
  rw [List.mem_filterMap]
  constructor
  · rintro ⟨o, ho, heq⟩
    cases o with
    | frame id f =>
      cases heq
      exact ho
    | _ => cases heq
  · intro hmem
    exact ⟨_, hmem, rfl⟩

theorem origin_of_commandsVelocity {id : Int} {f : CanFdFrame K} (h : commandsVelocity f) :
    (Effect.frame id f).origin = some .motor := by
  obtain ⟨command, hf⟩ := h
  simp only [Effect.origin, hf]

theorem frames_setStop (cfg : Config K) :
    frames (setStop cfg) = Telemetry.stopFrames cfg.controllers := by
  unfold frames setStop
  rw [List.filterMap_map]
  exact List.filterMap_some

theorem framesOf_setStop {cfg : Config K} {p : Int × Controller} (hp : p ∈ cfg.controllers.toList) :
    framesOf p.1 (setStop cfg) ≠ [] ∧ ∀ f ∈ framesOf p.1 (setStop cfg), f = p.2.makeStop := by
  unfold framesOf
  rw [frames_setStop, Telemetry.stopFrames, List.filterMap_map]
  refine ⟨?_, fun f hf => ?_⟩
  · have hmem : p.2.makeStop ∈ cfg.controllers.toList.filterMap
        ((fun q : Int × CanFdFrame K => if q.1 = p.1 then some q.2 else none) ∘
          fun q : Int × Controller => (q.1, q.2.makeStop)) :=
      List.mem_filterMap.mpr ⟨p, hp, if_pos rfl⟩
    exact List.ne_nil_of_mem hmem
  · obtain ⟨q, hq, heq⟩ := List.mem_filterMap.mp hf
    simp only [Function.comp_apply, Option.ite_none_right_eq_some, Option.some.injEq] at heq
    obtain ⟨hid, rfl⟩ := heq
    rw [Std.TreeMap.mem_toList_iff_getElem?_eq_some] at hp hq
    rw [hid, hp] at hq
    rw [Option.some.inj hq]

/-! ## Leaving -/

/-- No block that commands a velocity will run any more. -/
def Leaving (s : State K) : Prop :=
  s.pc = .exited ∨ s.pc = .shutdown ∨
    s.emergencyStop = true ∧ (s.pc = .sender ∨ s.pc = .arduino ∨ s.pc = .head)

theorem Leaving.not_motor {s : State K} (h : Leaving s) : s.pc ≠ .motor := by
  rcases h with h | h | ⟨-, h | h | h⟩ <;> rw [h] <;> decide

section

variable [Field K] [LinearOrder K] [FloorRing K] [Libm K] {cfg : Config K} {s : State K}

theorem Leaving.next (input : Input K) (h : Leaving s) : Leaving (next cfg input s).1 := by
  unfold Leaving
  rw [next_pc, next_emergencyStop, State.nextPc]
  rcases h with h | h | ⟨hstop, h | h | h⟩
  · simp [h]
  · simp [h]
  · simp [h, hstop]
  · simp [h, hstop]
  · simp [h, hstop]

theorem Leaving.process (e : Event K) (h : Leaving s) : Leaving (process cfg s e).1 := by
  cases e with
  | step input => exact h.next input
  | arrive d => exact h
  | signal => exact h
  | observe obs => exact h

/-- A velocity is commanded by a motor step or not at all. -/
theorem motor_of_commandsVelocity {e : Event K} {p : Int × CanFdFrame K}
    (hp : p ∈ frames (process cfg s e).2) (hv : commandsVelocity p.2) :
    ∃ input, e = .step input ∧ s.pc = .motor :=
  step_of_origin (mem_frames.mp hp) (origin_of_commandsVelocity hv)

/-- **A process that is leaving commands no velocity any more.** -/
theorem Leaving.no_velocity (es : List (Event K)) (h : Leaving s) :
    ∀ p ∈ frames ((Main.process cfg).trace s es), ¬ commandsVelocity p.2 := by
  have hout : ∀ s e, Leaving s → ∀ o ∈ (Main.process cfg s e).2, o.origin ≠ some .motor := by
    intro s e hs o ho horigin
    obtain ⟨input, -, hpc⟩ := step_of_origin ho horigin
    exact hs.not_motor hpc
  intro p hp hv
  exact Machine.forall_mem_trace h (fun _ e hs => hs.process e) hout _ (mem_frames.mp hp)
    (origin_of_commandsVelocity hv)

theorem process_exited (h : s.pc = .exited) (e : Event K) :
    (process cfg s e).1.pc = .exited ∧ (process cfg s e).2 = [] := by
  cases e with
  | step input =>
    have hnext : next cfg input s = (s, []) := by simp only [next, h]
    exact ⟨by rw [← h]; exact congrArg (·.1.pc) hnext, congrArg (·.2) hnext⟩
  | arrive d => exact ⟨h, rfl⟩
  | signal => exact ⟨h, rfl⟩
  | observe obs => exact ⟨h, rfl⟩

theorem trace_exited (h : s.pc = .exited) (es : List (Event K)) :
    (process cfg).trace s es = [] := by
  induction es generalizing s with
  | nil => rfl
  | cons e es ih =>
    rw [Machine.trace_cons, (process_exited h e).2, ih (process_exited h e).1, List.append_nil]

theorem after_exited (h : s.pc = .exited) (es : List (Event K)) :
    ((process cfg).after s es).pc = .exited := by
  induction es generalizing s with
  | nil => exact h
  | cons e es ih => exact ih (process_exited h e).1

/-! ## The causes -/

/-- The step taken in this state detects a cause to end the run: it polls a `STOP`, compares a
reported current with the limit and finds it above, or checks the manual flag at the head of the
loop. -/
def Detects (cfg : Config K) (s : State K) (input : Input K) : Prop :=
  s.pc = .receiver ∧ s.receives cfg ∧ s.udp.receive.2 = STOP ∨
    s.Overcurrent cfg input ∨
    s.pc = .head ∧ s.manualStopFlag = true

/-- **Behind the step that detects a cause the process is leaving.** -/
theorem Detects.leaving {input : Input K} (h : Detects cfg s input) :
    Leaving (next cfg input s).1 := by
  unfold Leaving
  rw [next_pc, next_emergencyStop, State.nextPc]
  rcases h with ⟨hpc, hdue, hmsg⟩ | hover | ⟨hpc, hflag⟩
  · simp [hpc, hdue, hmsg]
  · have hpc := hover.1
    simp [hpc, hover]
  · simp [hpc, hflag]

/-- A process is on its way out: `emergency_stop` is raised, or the loop is left. -/
def Ending (s : State K) : Prop := s.emergencyStop = true ∨ s.pc = .shutdown ∨ s.pc = .exited

/-- **Nothing but a detected cause puts a process on its way out.** -/
theorem ending_or_detects {input : Input K} (h : Ending (next cfg input s).1) :
    Ending s ∨ Detects cfg s input := by
  unfold Ending at h ⊢
  rw [next_pc, next_emergencyStop, State.nextPc] at h
  unfold Detects
  cases hpc : s.pc with
  | head =>
    cases hstop : s.emergencyStop <;> cases hflag : s.manualStopFlag <;>
      simp_all [State.Overcurrent]
  | receiver =>
    by_cases hr : s.receives cfg ∧ s.udp.receive.2 = STOP
    · exact Or.inr (Or.inl ⟨rfl, hr⟩)
    · simp only [hpc, hr, if_false, State.Overcurrent] at h
      exact Or.inl (Or.inl (by simpa using h))
  | motor =>
    simp only [hpc] at h
    rcases h with (h | h) | h | h
    · exact Or.inl (Or.inl h)
    · exact Or.inr (Or.inr (Or.inl h))
    all_goals cases h
  | shutdown => exact Or.inl (Or.inr (Or.inl rfl))
  | exited => exact Or.inl (Or.inr (Or.inr rfl))
  | _ =>
    -- The other blocks neither raise the flag nor leave the loop.
    simp only [hpc, State.Overcurrent] at h
    exact Or.inl (Or.inl (by simpa using h))

def World.Detected (w : World K) (es : List (Event K)) : Prop :=
  ∃ pre input post, es = pre ++ .step input :: post ∧ Detects w.config (w.after pre) input

theorem World.Detected.snoc {w : World K} {es : List (Event K)} (h : w.Detected es) (e : Event K) :
    w.Detected (es ++ [e]) := by
  obtain ⟨pre, input, post, rfl, hd⟩ := h
  exact ⟨pre, input, post ++ [e], by rw [List.append_assoc, List.cons_append], hd⟩

/-- **A process on its way out has detected a cause.** -/
theorem World.detected_of_ending {w : World K} {es : List (Event K)} (h : Ending (w.after es)) :
    w.Detected es := by
  induction es using List.reverseRecOn with
  | nil => exact absurd h (by simp [World.after, World.start, Ending])
  | append_singleton es e ih =>
    rw [World.after_snoc] at h
    cases e with
    | step input =>
      rcases ending_or_detects h with h | h
      · exact (ih h).snoc _
      · exact ⟨es, input, [], rfl, h⟩
    | arrive d => exact (ih h).snoc _
    | signal => exact (ih h).snoc _
    | observe obs => exact (ih h).snoc _

/-! ## The last frames -/

theorem next_stop (input : Input K) (hpc : s.pc = .receiver) (hdue : s.receives cfg)
    (hmsg : s.udp.receive.2 = STOP) :
    (next cfg input s).2 =
      [.recv STOP, logSub "reciever".toList "UDP STOP".toList .HATE] ++ setStop cfg ++
        [.disconnect, .exit] := by
  simp only [next, hpc]
  rw [receiver_stop hdue hmsg]
  rfl

/-- The last step is the receiver's at a `STOP`, or the shutdown. -/
theorem exit_cases {input : Input K} (hpc : s.pc ≠ .exited)
    (h : (next cfg input s).1.pc = .exited) :
    (s.pc = .receiver ∧ s.receives cfg ∧ s.udp.receive.2 = STOP) ∨ s.pc = .shutdown := by
  rw [next_pc, State.nextPc] at h
  cases hs : s.pc with
  | receiver =>
    simp only [hs] at h
    split at h
    · rename_i hr
      exact Or.inl ⟨rfl, hr⟩
    · cases h
  | shutdown => exact Or.inr rfl
  | exited => exact absurd hs hpc
  | head =>
    simp only [hs] at h
    split at h <;> cases h
  | _ => simp only [hs] at h; cases h

/-- **Where `main` ends it has just stopped every controller.** -/
theorem exit_effects {input : Input K} (hpc : s.pc ≠ .exited)
    (h : (next cfg input s).1.pc = .exited) :
    ∃ before behind, (next cfg input s).2 = before ++ setStop cfg ++ behind ∧
      frames behind = [] := by
  rcases exit_cases hpc h with ⟨hs, hdue, hmsg⟩ | hs
  · exact ⟨_, _, next_stop input hs hdue hmsg, rfl⟩
  · have heq : (next cfg input s).2 = [] ++ setStop cfg ++
        [.disconnect, log "Emergency stop activated, shutting down".toList .HATE, .closeLogs,
          .exit] := by
      simp only [next, hs]
      rfl
    exact ⟨[], _, heq, rfl⟩

/-- An ended process took its last step at some event, and was silent from there on. -/
theorem World.last_step {w : World K} {es : List (Event K)} (h : (w.after es).pc = .exited) :
    ∃ pre input post, es = pre ++ .step input :: post ∧ (w.after pre).pc ≠ .exited ∧
      (next w.config input (w.after pre)).1.pc = .exited ∧
      w.history es = w.history pre ++ (next w.config input (w.after pre)).2 := by
  induction es using List.reverseRecOn with
  | nil => cases h
  | append_singleton es e ih =>
    rw [World.after_snoc] at h
    by_cases hpc : (w.after es).pc = .exited
    · obtain ⟨pre, input, post, rfl, hbefore, hexit, hhistory⟩ := ih hpc
      refine ⟨pre, input, post ++ [e], by simp, hbefore, hexit, ?_⟩
      rw [World.history_snoc, (process_exited hpc e).2, List.append_nil, hhistory]
    · cases e with
      | step input => exact ⟨es, input, [], rfl, hpc, h, World.history_snoc w es _⟩
      | arrive d => exact absurd h hpc
      | signal => exact absurd h hpc
      | observe obs => exact absurd h hpc

/-- An ended process has sent no frame since it stopped every controller. -/
theorem World.history_of_exited {w : World K} {es : List (Event K)}
    (h : (w.after es).pc = .exited) :
    ∃ before behind, w.history es = before ++ setStop w.config ++ behind ∧ frames behind = [] := by
  obtain ⟨pre, input, post, -, hpc, hexit, hhistory⟩ := World.last_step h
  obtain ⟨before, behind, heq, hbehind⟩ := exit_effects hpc hexit
  refine ⟨w.history pre ++ before, behind, ?_, hbehind⟩
  rw [hhistory, heq]
  simp only [List.append_assoc]

/-- **Every shutdown ends with the wheels stopped.** A run that has ended has detected a cause; from
the step that detected it on no velocity was commanded, and the last frame of every controller is a
stop frame. -/
theorem World.exited_wheels_stopped (w : World K) {es : List (Event K)}
    (h : (w.after es).pc = .exited) :
    w.Detected es ∧
      (∀ pre input post, es = pre ++ .step input :: post → Detects w.config (w.after pre) input →
        ((w.after pre).pc ≠ .motor →
          ∀ p ∈ frames (process w.config (w.after pre) (.step input)).2, ¬ commandsVelocity p.2) ∧
        ∀ p ∈ frames ((process w.config).trace (w.after (pre ++ [.step input])) post),
          ¬ commandsVelocity p.2) ∧
      ∀ p ∈ w.config.controllers.toList,
        (framesOf p.1 (w.history es)).getLast? = some p.2.makeStop := by
  refine ⟨World.detected_of_ending (Or.inr (Or.inr h)), ?_, ?_⟩
  · intro pre input post _ hd
    refine ⟨fun hpc p hp hv => ?_, ?_⟩
    · obtain ⟨-, -, hmotor⟩ := motor_of_commandsVelocity hp hv
      exact hpc hmotor
    · have hleaving : Leaving (w.after (pre ++ [.step input])) := by
        rw [World.after_snoc]
        exact hd.leaving
      exact hleaving.no_velocity post
  · intro p hp
    obtain ⟨before, behind, heq, hbehind⟩ := World.history_of_exited h
    obtain ⟨hne, hall⟩ := framesOf_setStop hp
    have hnil : framesOf p.1 behind = [] := by
      unfold framesOf
      rw [hbehind]
      rfl
    rw [heq, framesOf_append, framesOf_append, hnil, List.append_nil,
      List.getLast?_append_of_ne_nil _ hne, List.getLast?_eq_getLast_of_ne_nil hne]
    exact congrArg some (hall _ (List.getLast_mem hne))

/-- A signal on the bench, behind a turn whose motor cycle has the robot rotate. -/
theorem World.exited_wheels_stopped_signal :
    let es := arrival "1 0 0 0.1 0 0 0" :: turn ℝ ++ [.signal, .step (.bench ℝ), .step (.bench ℝ)]
    (framesOf 1 ((World.bench ℝ).history es)).getLast? =
      some (Controller.new { id := 1, bus := 1 }).makeStop :=
  ((World.bench ℝ).exited_wheels_stopped (by decide +kernel)).2.2
    (1, Controller.new { id := 1, bus := 1 }) (List.Mem.head _)

/-! ## `STOP` datagrams -/

theorem polls_next (cfg : Config K) (input : Input K) (s : State K) :
    polls (next cfg input s).2 =
      if s.pc = .receiver ∧ s.receives cfg then [s.udp.receive.2] else [] := by
  by_cases hpc : s.pc = .receiver
  · simp only [next, hpc, true_and]
    by_cases hdue : s.receives cfg
    · rw [if_pos hdue]
      by_cases ht : s.udp.receive.2 = TIMEOUT
      · rw [receiver_timeout hdue ht, polls_recv, ht,
          polls_of_origin fun o ho => by simp [origin_of_mem_onTimeout ho]]
      · by_cases hs : s.udp.receive.2 = STOP
        · rw [receiver_stop hdue hs, polls_recv, hs,
            polls_of_origin fun o ho => by simp [origin_of_mem_onStop ho]]
        · rw [receiver_command hdue ht hs, polls_recv]
          rfl
    · rw [if_neg hdue, receiver_idle hdue, polls_nil]
  · rw [if_neg fun h => hpc h.1]
    refine polls_of_origin fun o ho horigin => ?_
    rcases origin_of_mem_next ho with h | h
    · rw [h] at horigin
      cases horigin
    · exact hpc (Option.some.inj (h.symm.trans horigin))

/-- A `STOP` in the history is its last poll, and has ended the process. -/
def StopLast (s : State K) (h : List (Effect K)) : Prop :=
  STOP ∈ polls h → s.pc = .exited ∧ (polls h).getLast? = some STOP

theorem StopLast.process {h : List (Effect K)} (hs : StopLast s h) (e : Event K) :
    StopLast (process cfg s e).1 (h ++ (process cfg s e).2) := by
  intro hmem
  rw [polls_append] at hmem ⊢
  rcases List.mem_append.mp hmem with hmem | hmem
  · -- Behind the `STOP` of the earlier history there is no further step, and so no further poll.
    obtain ⟨hpc, hlast⟩ := hs hmem
    obtain ⟨hpc', hnil⟩ := process_exited hpc e
    rw [hnil, polls_nil, List.append_nil]
    exact ⟨hpc', hlast⟩
  · cases e with
    | step input =>
      have hpolls := polls_next cfg input s
      have hnext : STOP ∈ polls (next cfg input s).2 := hmem
      rw [hpolls] at hnext
      split at hnext
      · rename_i hr
        have hmsg := List.mem_singleton.mp hnext
        rw [if_pos hr] at hpolls
        refine ⟨?_, ?_⟩
        · show (next cfg input s).1.pc = .exited
          rw [next_pc, State.nextPc, hr.1]
          exact if_pos ⟨hr.2, hmsg.symm⟩
        · show (_ ++ polls (next cfg input s).2).getLast? = some STOP
          rw [hpolls, ← hmsg, List.getLast?_concat]
      · cases hnext
    | arrive d => cases hmem
    | signal => cases hmem
    | observe obs => cases hmem

/-- **Nothing is polled behind a `STOP`.** -/
theorem World.stop_last {w : World K} {es : List (Event K)} (h : STOP ∈ polls (w.history es)) :
    (w.after es).pc = .exited ∧ (polls (w.history es)).getLast? = some STOP := by
  have hstart : StopLast w.start w.startup := by
    intro hmem
    rw [polls_of_origin fun o ho => by simp [World.origin_of_mem_startup ho]] at hmem
    cases hmem
  exact Machine.history_induction hstart (fun _ _ e hs => hs.process e) es h

/-- So a history that has gone on behind its earlier polls without a `STOP` never had one. -/
theorem World.stop_not_mem {w : World K} {es : List (Event K)} {earlier recent : List Text}
    (hpolls : polls (w.history es) = earlier ++ recent) (hne : recent ≠ [])
    (hstop : STOP ∉ recent) : STOP ∉ polls (w.history es) := by
  intro hmem
  have hlast := (World.stop_last hmem).2
  rw [hpolls, List.getLast?_append_of_ne_nil _ hne] at hlast
  exact hstop (List.mem_of_getLast? hlast)

theorem bufferSize_next (cfg : Config K) (input : Input K) (s : State K) :
    (next cfg input s).1.udp.bufferSize = s.udp.bufferSize := by
  unfold next
  -- Only the receiver touches the socket, and a datagram does not change the buffer.
  cases s.pc with
  | head =>
    obtain ⟨currentTime, timers, heq⟩ := head_eq input s
    simp only [heq]
  | receiver =>
    by_cases hdue : s.receives cfg
    · by_cases ht : s.udp.receive.2 = TIMEOUT
      · simp only [receiver_timeout hdue ht, onTimeout]
        split <;> exact s.udp.bufferSize_receive
      · by_cases hs : s.udp.receive.2 = STOP
        · simp only [receiver_stop hdue hs]
          exact s.udp.bufferSize_receive
        · simp only [receiver_command hdue ht hs]
          exact s.udp.bufferSize_receive
    · simp only [receiver_idle hdue]
  | camera =>
    obtain ⟨timers, senderMsg, os, -, heq⟩ := camera_eq cfg s
    simp only [heq]
  | motor =>
    by_cases h : s.cycles cfg
    · simp only [motor_due h]
      rfl
    · simp only [motor_idle h]
  | sender =>
    obtain ⟨timers, targetAddr, os, -, heq⟩ := sender_eq cfg s
    simp only [heq]
  | arduino =>
    by_cases h : s.commands cfg
    · simp only [arduino_due h]
      rfl
    · obtain ⟨timers, heq⟩ := arduino_idle input h
      simp only [heq]
  | shutdown => rfl
  | exited => rfl

theorem World.bufferSize_after (w : World K) (es : List (Event K)) :
    (w.after es).udp.bufferSize = w.start.udp.bufferSize := by
  have hstep : ∀ s e, s.udp.bufferSize = w.start.udp.bufferSize →
      (process w.config s e).1.udp.bufferSize = w.start.udp.bufferSize := by
    intro s e hs
    cases e with
    | step input => exact (bufferSize_next w.config input s).trans hs
    | arrive d => exact hs
    | signal => exact hs
    | observe obs => exact hs
  refine Machine.invariant_after ?_ hstep es
  rfl

/-- **A `STOP` that is the newest datagram when the receiver polls ends the run**, whatever was
queued before it: the poll stops every controller, ends the process, and nothing is sent any more.
-/
theorem World.newest_stop_ends (w : World K) (es : List (Event K)) (older : List Datagram)
    (d : Datagram) (input : Input K) (hbuf : 5 ≤ w.start.udp.bufferSize)
    (hpc : (w.after es).pc = .receiver) (hdue : (w.after es).receives w.config)
    (hqueue : (w.after es).udp.queue = older ++ [d]) (hd : d.payload = STOP) :
    let r := process w.config (w.after es) (.step input)
    frames r.2 = Telemetry.stopFrames w.config.controllers ∧ r.1.pc = .exited ∧
      ∀ fs, (process w.config).trace r.1 fs = [] := by
  have hmsg : (w.after es).udp.receive.2 = STOP := by
    rw [(Udp.receive_newest _ _ _ hqueue).1, Udp.received, hd, World.bufferSize_after]
    exact List.take_of_length_le (by simpa [STOP] using by omega)
  have hexit : (next w.config input (w.after es)).1.pc = .exited := by
    rw [next_pc, State.nextPc, hpc]
    exact if_pos ⟨hdue, hmsg⟩
  refine ⟨?_, hexit, trace_exited hexit⟩
  show frames (next w.config input (w.after es)).2 = _
  rw [next_stop input hpc hdue hmsg, frames_append, frames_append, frames_setStop]
  exact List.append_nil _

theorem World.newest_stop_ends_bench :
    let w := World.bench ℝ
    let command : Datagram := ⟨"1 0.5 0 0 0 0 0".toList, .inet 0 0⟩
    let s := w.after [.step (.bench ℝ), .arrive command, .arrive ⟨STOP, .inet 0 0⟩]
    (process w.config s (.step (.bench ℝ))).1.pc = .exited :=
  ((World.bench ℝ).newest_stop_ends
    [.step (.bench ℝ), .arrive ⟨"1 0.5 0 0 0 0 0".toList, .inet 0 0⟩, .arrive ⟨STOP, .inet 0 0⟩]
    [⟨"1 0.5 0 0 0 0 0".toList, .inet 0 0⟩] ⟨STOP, .inet 0 0⟩ (.bench ℝ)
    (by decide) rfl rfl rfl rfl).2.1

/-- **Any other `STOP` is lost**: one with a command behind it, and one that the buffer cannot hold.
In both runs a due poll takes the `STOP` off the queue, no controller is stopped and the loop goes
on. -/
theorem World.stop_lost :
    (let w := World.bench ℝ
      let command : Datagram := ⟨"1 0.5 0 0 0 0 0".toList, .inet 0 0⟩
      let s := w.after [.step (.bench ℝ), .arrive ⟨STOP, .inet 0 0⟩, .arrive command]
      let r := process w.config s (.step (.bench ℝ))
      s.pc = .receiver ∧ s.receives w.config ∧ (⟨STOP, .inet 0 0⟩ : Datagram) ∈ s.udp.queue ∧
        r.1.udp.queue = [] ∧ frames r.2 = [] ∧ r.1.pc = .camera) ∧
    (let w := { World.bench ℝ with network := some ⟨4, 50514, 50513, by decide⟩ }
      let s := w.after [.step (.bench ℝ), .arrive ⟨STOP, .inet 0 0⟩]
      let r := process w.config s (.step (.bench ℝ))
      s.pc = .receiver ∧ s.receives w.config ∧ (⟨STOP, .inet 0 0⟩ : Datagram) ∈ s.udp.queue ∧
        r.1.udp.queue = [] ∧ frames r.2 = [] ∧ r.1.pc = .camera) :=
  ⟨⟨rfl, rfl, List.Mem.head _, rfl, rfl, rfl⟩, ⟨rfl, rfl, List.Mem.head _, rfl, rfl, rfl⟩⟩

end

end RobotFramework.Main
