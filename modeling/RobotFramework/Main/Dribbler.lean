import RobotFramework.Arduino.Firmware
import RobotFramework.Main.Commands

/-!
# The robot at the end of a run: what becomes of the dribbler

Here two programs run side by side: the process, and the firmware at the other end of the serial
line, which reads the bytes in its own time. The speed controller of the dribbler keeps the last
value that a `D` or an `S` gave it, and none of the ways out of `main` writes a byte. So **the
dribbler is left as the last Arduino step that served no kick left it**
(`World.dribbler_left_off_iff`), whether that step found the dribble flag set or not.
-/

namespace RobotFramework.Main

open Cxx Moteus Reactive

variable {K : Type}

/-! ## The serial line -/

def Effect.serial? : Effect K → Option Char
  | .serial byte => some byte
  | _ => none

def serialBytes (h : List (Effect K)) : List Char := h.filterMap Effect.serial?

theorem serialBytes_append (h k : List (Effect K)) :
    serialBytes (h ++ k) = serialBytes h ++ serialBytes k :=
  List.filterMap_append

/-- The dribbler's bytes among them. -/
def dribbleBytes (h : List (Effect K)) : List Char :=
  h.filterMap fun o => o.serial?.filter Firmware.isDribble

theorem dribbleBytes_eq_filter (h : List (Effect K)) :
    dribbleBytes h = (serialBytes h).filter Firmware.isDribble :=
  List.filter_filterMap.symm

/-- The last of the bytes `D` and `S` is `S`, or there never was a `D`. -/
def StopsLast (bytes : List Char) : Prop :=
  (bytes.filter Firmware.isDribble).getLast? = some 'S' ∨ 'D' ∉ bytes

theorem stopsLast_iff {bytes : List Char} :
    StopsLast bytes ↔ (bytes.filter Firmware.isDribble).getLast? ≠ some 'D' := by
  constructor
  · rintro (hS | hD) hlast
    · rw [hlast] at hS
      exact absurd (Option.some.inj hS) (by decide)
    · exact hD (List.mem_filter.mp (List.mem_of_getLast? hlast)).1
  · intro hlast
    cases h : (bytes.filter Firmware.isDribble).getLast? with
    | none =>
      refine Or.inr fun hD => ?_
      have hmem : 'D' ∈ bytes.filter Firmware.isDribble := List.mem_filter.mpr ⟨hD, by decide⟩
      rw [List.getLast?_eq_none_iff.mp h] at hmem
      cases hmem
    | some byte =>
      have hbyte := (List.mem_filter.mp (List.mem_of_getLast? h)).2
      simp only [Firmware.isDribble, Bool.or_eq_true, decide_eq_true_eq] at hbyte
      rcases hbyte with rfl | rfl
      · exact absurd h hlast
      · exact Or.inl h

/-! ## The process and the firmware -/

section

variable [Field K] [LinearOrder K] [FloorRing K] [Libm K]

/-- The robot: what the process writes arrives at the firmware, in order. -/
def robot (cfg : Config K) :
    Machine (State K × Firmware.State) (Event K ⊕ BitVec 32) (Effect K ⊕ Firmware.Output) :=
  Machine.pipe (process cfg) (fun board os => Firmware.deliver board (serialBytes os)) Firmware.loop

def World.robot (w : World K) (es : List (Event K ⊕ BitVec 32)) : State K × Firmware.State :=
  (Main.robot w.config).after (w.start, Firmware.setup) es

theorem World.robot_fst (w : World K) (es : List (Event K ⊕ BitVec 32)) :
    (w.robot es).1 = w.after (Machine.lefts es) :=
  Machine.pipe_fst _ _ _

omit [LinearOrder K] [FloorRing K] in
theorem World.serialBytes_startup (w : World K) : serialBytes w.startup = [] := by
  refine List.filterMap_eq_nil_iff.mpr fun o ho => ?_
  have horigin := World.origin_of_mem_startup ho
  cases o with
  | serial byte => cases horigin
  | _ => rfl

/-- The board is in the state that the bytes of the process bring it to, but for those it has not
read. -/
theorem World.settled_robot (w : World K) (es : List (Event K ⊕ BitVec 32)) :
    Firmware.settled (w.robot es).2 =
      (serialBytes (w.history (Machine.lefts es))).foldl Firmware.escOf
        Firmware.dribblerStopPin := by
  rw [World.history, serialBytes_append, World.serialBytes_startup, List.nil_append]
  refine Machine.pipe_induction (fun _ board h =>
    Firmware.settled board =
      (serialBytes h).foldl Firmware.escOf Firmware.dribblerStopPin) rfl ?_ ?_ es
  · intro s board h e hboard
    rw [Firmware.settled_deliver, hboard, serialBytes_append, List.foldl_append]
  · intro s board h millis hboard
    rw [Firmware.settled_loop, hboard]

/-- **A board that has read everything has its dribbler off exactly if the bytes stop it last.** -/
theorem World.esc_robot {w : World K} {es : List (Event K ⊕ BitVec 32)}
    (hread : (w.robot es).2.serial = []) :
    (w.robot es).2.esc = Firmware.dribblerStopPin ↔
      StopsLast (serialBytes (w.history (Machine.lefts es))) := by
  rw [Firmware.esc_eq_settled hread, World.settled_robot, Firmware.foldl_escOf, stopsLast_iff]
  cases ((serialBytes (w.history (Machine.lefts es))).filter Firmware.isDribble).getLast? with
  | none => simp
  | some byte =>
    by_cases hD : byte = 'D'
    · simp [hD, Firmware.dribblerPower, Firmware.dribblerStopPin]
    · simp [hD]

/-! ## Which step decides -/

variable {cfg : Config K} {s : State K}

/-- The step writes one of the dribbler's bytes: it commands the Arduino, there is no kick to serve,
and the write succeeds. -/
def DrivesDribbler (cfg : Config K) (s : State K) (input : Input K) : Prop :=
  CommandsArduino cfg s ∧ s.cmd.kick = false ∧ input.write.writes = true

theorem dribbleBytes_of_drives {input : Input K} (h : DrivesDribbler cfg s input) :
    dribbleBytes (process cfg s (.step input)).2 = [if s.cmd.dribble then 'D' else 'S'] := by
  obtain ⟨⟨hpc, hc⟩, hkick, hwrites⟩ := h
  rw [process_arduino cfg input hpc, arduino_due hc, if_pos hwrites]
  unfold State.arduinoByte
  rw [hkick]
  cases s.cmd.dribble <;> rfl

theorem dribbleBytes_of_not_drives {e : Event K}
    (h : ∀ input, e = .step input → ¬ DrivesDribbler cfg s input) :
    dribbleBytes (process cfg s e).2 = [] := by
  refine List.filterMap_eq_nil_iff.mpr fun o ho => ?_
  cases o with
  | serial byte =>
    obtain ⟨input, rfl, hpc⟩ := step_of_origin ho rfl
    rw [process_arduino cfg input hpc] at ho
    obtain ⟨hc, ⟨heq, hwrites⟩ | heq | heq⟩ := mem_arduino ho
    · -- The write succeeded, so the byte is not the dribbler's only because it serves a kick.
      have hkick : s.cmd.kick = true := by
        by_contra hkick
        exact h input rfl ⟨⟨hpc, hc⟩, Bool.eq_false_iff.mpr hkick, hwrites⟩
      have hbyte : byte = 'K' := by
        rw [Effect.serial.inj heq, arduinoByte_eq_K.mpr hkick]
      rw [hbyte]
      rfl
    · cases heq
    · cases heq
  | _ => rfl

/-- **A run writes none of the dribbler's bytes exactly if no step of it is at the dribbler.** -/
theorem dribbleBytes_trace_eq_nil {es : List (Event K)} :
    dribbleBytes ((process cfg).trace s es) = [] ↔
      ∀ pre input post, es = pre ++ .step input :: post →
        ¬ DrivesDribbler cfg ((process cfg).after s pre) input := by
  apply Machine.filterMap_trace_eq_nil.trans
  constructor
  · intro hnil pre input post hes hdrives
    have hbytes := hnil pre _ post hes
    exact List.cons_ne_nil _ _ ((dribbleBytes_of_drives hdrives).symm.trans hbytes)
  · intro hnot pre e post hes
    apply dribbleBytes_of_not_drives
    intro input hstep
    subst hstep
    exact hnot pre input post hes

/-- The step with which the run was last at the dribbler: behind it no step of the run is. -/
def World.LastDrive (w : World K) (es pre : List (Event K)) (input : Input K)
    (post : List (Event K)) : Prop :=
  es = pre ++ .step input :: post ∧ DrivesDribbler w.config (w.after pre) input ∧
    ∀ mid later rest, post = mid ++ .step later :: rest →
      ¬ DrivesDribbler w.config (w.after (pre ++ .step input :: mid)) later

theorem World.dribbleBytes_history (w : World K) (es : List (Event K)) :
    dribbleBytes (w.history es) = dribbleBytes ((process w.config).trace w.start es) := by
  rw [World.history, dribbleBytes_eq_filter, serialBytes_append, World.serialBytes_startup,
    List.nil_append, dribbleBytes_eq_filter]

theorem World.quiet_iff {w : World K} {pre post : List (Event K)} {e : Event K} :
    dribbleBytes ((process w.config).trace (w.after (pre ++ [e])) post) = [] ↔
      ∀ mid later rest, post = mid ++ .step later :: rest →
        ¬ DrivesDribbler w.config (w.after (pre ++ e :: mid)) later := by
  have hafter : ∀ mid, (process w.config).after (w.after (pre ++ [e])) mid =
      w.after (pre ++ e :: mid) := by
    intro mid
    rw [← World.after_append, List.append_assoc]
    rfl
  rw [dribbleBytes_trace_eq_nil]
  simp only [hafter]

/-- **The last of the dribbler's bytes is that of the step last at the dribbler.** -/
theorem World.getLast?_dribbleBytes {w : World K} {es : List (Event K)} {byte : Char} :
    (dribbleBytes (w.history es)).getLast? = some byte ↔
      ∃ pre input post, w.LastDrive es pre input post ∧
        byte = if (w.after pre).cmd.dribble then 'D' else 'S' := by
  rw [World.dribbleBytes_history]
  apply Machine.getLast?_filterMap_trace.trans
  constructor
  · rintro ⟨pre, e, post, rfl, hlast, hpost⟩
    have hlast : (dribbleBytes (process w.config (w.after pre) e).2).getLast? = some byte := hlast
    by_cases hdrives : ∃ input, e = .step input ∧ DrivesDribbler w.config (w.after pre) input
    · obtain ⟨input, rfl, hdrives⟩ := hdrives
      rw [dribbleBytes_of_drives hdrives] at hlast
      exact ⟨pre, input, post, ⟨rfl, hdrives, World.quiet_iff.mp hpost⟩,
        (Option.some.inj hlast).symm⟩
    · -- A step that is not at the dribbler puts out none of its bytes, and so not the last one.
      rw [dribbleBytes_of_not_drives fun input hstep hd => hdrives ⟨input, hstep, hd⟩] at hlast
      cases hlast
  · rintro ⟨pre, input, post, ⟨rfl, hdrives, hpost⟩, rfl⟩
    refine ⟨pre, _, post, rfl, ?_, World.quiet_iff.mpr hpost⟩
    exact congrArg List.getLast? (dribbleBytes_of_drives hdrives)

/-- A step at the dribbler finds the flag that the datagrams so far left in the decoder. -/
theorem World.LastDrive.dribble_eq_held {w : World K} {es pre post : List (Event K)}
    {input : Input K} (h : w.LastDrive es pre input post) :
    (w.after pre).cmd.dribble = (held w.start.cmd (polls (w.history pre))).dribble := by
  refine w.dribble_eq_held fun hmem => ?_
  have hpc := h.2.1.1.1
  rw [(World.stop_last hmem).1] at hpc
  cases hpc

/-- **How the dribbler is left.** At any time of a run, and so behind the exit: the last of the
bytes `D` and `S` is `S`, or there was no `D`, and a board that has read them all has its dribbler
off, exactly if the datagrams received before the step last at the dribbler left the dribble flag
clear. -/
theorem World.dribbler_left_off_iff (w : World K) (es : List (Event K ⊕ BitVec 32))
    (hread : (w.robot es).2.serial = []) :
    (StopsLast (serialBytes (w.history (Machine.lefts es))) ∧
        (w.robot es).2.esc = Firmware.dribblerStopPin) ↔
      ∀ pre input post, w.LastDrive (Machine.lefts es) pre input post →
        (held w.start.cmd (polls (w.history pre))).dribble = false := by
  rw [World.esc_robot hread, and_self, stopsLast_iff, ← dribbleBytes_eq_filter, Ne,
    World.getLast?_dribbleBytes]
  constructor
  · intro hnot pre input post hdrive
    rw [← hdrive.dribble_eq_held]
    by_contra hdribble
    exact hnot ⟨pre, input, post, hdrive, by rw [if_pos (Bool.eq_true_of_not_eq_false hdribble)]⟩
  · rintro hclear ⟨pre, input, post, hdrive, hbyte⟩
    have hdribble := hclear pre input post hdrive
    rw [← hdrive.dribble_eq_held] at hdribble
    rw [hdribble] at hbyte
    exact absurd hbyte (by decide)

end

/-- A bench that is interrupted behind its first turn, and a board that then reads the one byte. -/
theorem World.dribbler_left_off_iff_bench :
    let w := World.bench ℝ
    let main : List (Event ℝ) := turn ℝ ++ [.signal, .step (.bench ℝ), .step (.bench ℝ)]
    let es := main.map Sum.inl ++ [Sum.inr 0]
    (w.robot es).1.pc = .exited ∧ StopsLast (serialBytes (w.history (Machine.lefts es))) ∧
      (w.robot es).2.esc = Firmware.dribblerStopPin := by
  intro w main es
  have hclear : ∀ pre ∈ (Machine.lefts es).inits,
      (held w.start.cmd (polls (w.history pre))).dribble = false := by
    decide +kernel
  exact ⟨by rw [World.robot_fst]; decide +kernel,
    (w.dribbler_left_off_iff es (by decide +kernel)).mpr fun pre input post hdrive =>
      hclear pre (List.mem_inits pre _ |>.mpr ⟨_, hdrive.1.symm⟩)⟩

/-- **The dribbler outlives the process**: behind a command that starts it, `main` is interrupted
and ends, and the board has read all there is to read. -/
theorem World.dribbler_left_on :
    let w := World.bench ℝ
    let main : List (Event ℝ) := arrival "1 0 0 0 0 1 0" :: turn ℝ ++
      [.signal, .step (.bench ℝ), .step (.bench ℝ)]
    let es := main.map Sum.inl ++ [Sum.inr 0]
    (w.robot es).1.pc = .exited ∧ (w.robot es).2.serial = [] ∧
      ¬ StopsLast (serialBytes (w.history (Machine.lefts es))) ∧
      (w.robot es).2.esc = Firmware.dribblerPower := by
  intro w main es
  have hbytes : serialBytes (w.history (Machine.lefts es)) = ['D'] := by decide +kernel
  refine ⟨by decide +kernel, by decide +kernel, fun hstops => ?_, by decide +kernel⟩
  rw [hbytes] at hstops
  exact stopsLast_iff.mp hstops rfl

end RobotFramework.Main
