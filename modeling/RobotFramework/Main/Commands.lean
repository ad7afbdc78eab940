import RobotFramework.Main.Wheels

/-!
# What the Arduino is told

Every due step of the Arduino block with a connected Arduino issues one byte, `K` or `D` or `S`, by
the two flags of the decoder at that moment. The flags are written by the receiver, at another rate,
and nothing else resets them but a kick that is issued. Two things follow.

* A lost link resets neither flag: the wheels are stopped, but **the dribbler runs on**
  (`World.lost_link_bytes`).
* The kick flag is no queue. It holds whether the *latest* command asks for a kick, so **a request
  is lost** to a later command or to a write that fails (`World.issues_kick_iff`).
-/

namespace RobotFramework.Main

open Cxx Moteus Reactive

variable {K : Type}

/-! ## The byte of an Arduino step -/

theorem arduinoByte_eq_K {s : State K} : s.arduinoByte = 'K' ↔ s.cmd.kick = true := by
  unfold State.arduinoByte
  cases s.cmd.kick <;> cases s.cmd.dribble <;> decide

theorem arduinoByte_eq_S {s : State K} :
    s.arduinoByte = 'S' ↔ s.cmd.kick = false ∧ s.cmd.dribble = false := by
  unfold State.arduinoByte
  cases s.cmd.kick <;> cases s.cmd.dribble <;> decide

section

variable [Field K] [LinearOrder K] [FloorRing K] [Libm K] {cfg : Config K} {s : State K}

/-- **The bytes that a step issues**: an Arduino step that is due and finds an Arduino issues its
byte, and no other step issues any. -/
theorem command_mem_process {e : Event K} {byte : Char} :
    (∃ ok, .command byte ok ∈ (process cfg s e).2) ↔
      (∃ input, e = .step input) ∧ s.pc = .arduino ∧ s.commands cfg ∧ byte = s.arduinoByte := by
  constructor
  · rintro ⟨ok, ho⟩
    obtain ⟨input, rfl, hpc⟩ := step_of_origin ho rfl
    rw [process_arduino cfg input hpc] at ho
    obtain ⟨hc, ⟨heq, -⟩ | heq | heq⟩ := mem_arduino ho
    · cases heq
    · exact ⟨⟨input, rfl⟩, hpc, hc, (Effect.command.inj heq).1⟩
    · cases heq
  · rintro ⟨⟨input, rfl⟩, hpc, hc, rfl⟩
    rw [process_arduino cfg input hpc, arduino_due hc]
    exact ⟨_, List.mem_append_right _ List.mem_cons_self⟩

end

/-! ## The flags -/

section

variable [Field K] [LinearOrder K] [Libm K]

/-- A kick waits: the latest datagram that had a kick flag had it set, and no byte has been issued
since. -/
def observeWaiting (waiting : Bool) : Effect K → Bool
  | .recv msg =>
    if msg = TIMEOUT ∨ msg = STOP then waiting
    else
      match field? (K := K) msg 4 with
      | some (.bool kick) => kick
      | _ => waiting
  | .command _ _ => false
  | _ => waiting

omit [LinearOrder K] [Libm K] in
theorem kick_decodeCmd (cmd : CmdDecoder K) {msg : Text} (hne : ¬ (msg = TIMEOUT ∨ msg = STOP)) :
    (cmd.decodeCmd msg).kick = observeWaiting cmd.kick (.recv msg : Effect K) := by
  have hmember : some (Value.bool (cmd.decodeCmd msg).kick) =
      (field? msg 4).or (some (.bool cmd.kick)) := member_decodeCmd cmd msg 4
  simp only [observeWaiting, if_neg hne]
  cases hfield : field? (K := K) msg 4 with
  | none =>
    rw [hfield, Option.none_or, Option.some_inj, Value.bool.injEq] at hmember
    exact hmember
  | some v =>
    rw [hfield, Option.some_or, Option.some_inj] at hmember
    rw [← hmember]

/-- Where no byte is issued. -/
theorem Link.kick_of_polls {wheel : WheelMath K} {os : List (Effect K)}
    (hos : ∀ byte ok, .command byte ok ∉ os) (l : Link K) :
    (os.foldl (Link.observe wheel) l).cmd.kick = os.foldl observeWaiting l.cmd.kick := by
  induction os generalizing l with
  | nil => rfl
  | cons o os ih =>
    have hkick : (l.observe wheel o).cmd.kick = observeWaiting l.cmd.kick o := by
      cases o with
      | recv msg =>
        by_cases ht : msg = TIMEOUT
        · simp only [Link.observe, Link.poll, observeWaiting, ht, if_true, true_or]
        · by_cases hs : msg = STOP
          · simp only [Link.observe, Link.poll, observeWaiting, hs, if_true, or_true,
              if_neg TIMEOUT_ne_STOP.symm]
          · simp only [Link.observe, Link.poll, if_neg ht, if_neg hs]
            exact kick_decodeCmd l.cmd (not_or.mpr ⟨ht, hs⟩)
      | command byte ok => exact absurd List.mem_cons_self (hos byte ok)
      | _ => rfl
    rw [List.foldl_cons, List.foldl_cons, ih fun byte ok h => hos byte ok (List.mem_cons_of_mem _ h),
      hkick]

variable [FloorRing K]

def CommandsArduino (cfg : Config K) (s : State K) : Prop := s.pc = .arduino ∧ s.commands cfg

theorem process_kick (cfg : Config K) (s : State K) (e : Event K) :
    (process cfg s e).1.cmd.kick = (process cfg s e).2.foldl observeWaiting s.cmd.kick := by
  by_cases hcommand : (∃ input, e = .step input) ∧ CommandsArduino cfg s
  · -- Whatever byte is issued, no kick waits behind it.
    obtain ⟨⟨input, rfl⟩, hpc, hc⟩ := hcommand
    rw [process_arduino cfg input hpc, arduino_due hc, List.foldl_append]
    split <;> rfl
  · have hlink := congrArg (fun l : Link K => l.cmd.kick) (process_link cfg s e)
    rw [Link.kick_of_polls] at hlink
    · exact hlink
    · intro byte ok hmem
      obtain ⟨hstep, hpc, hc, -⟩ := command_mem_process.mp ⟨ok, hmem⟩
      exact hcommand ⟨hstep, hpc, hc⟩

/-- A kick waits behind the events of a run. -/
def World.kickWaits (w : World K) (es : List (Event K)) : Bool :=
  (w.history es).foldl observeWaiting w.start.cmd.kick

/-- **The kick flag says whether a kick waits.** -/
theorem World.kick_eq_kickWaits (w : World K) (es : List (Event K)) :
    (w.after es).cmd.kick = w.kickWaits es := by
  have hinert : ∀ (waiting : Bool) (o : Effect K), o.Inert → observeWaiting waiting o = waiting := by
    intro waiting o ho
    cases o with
    | recv msg => exact absurd rfl ho.1
    | command byte ok => exact absurd rfl ho.2
    | _ => rfl
  rw [World.kickWaits, World.foldl_history hinert]
  exact @Machine.view_after _ _ _ _ (process w.config) (fun s => s.cmd.kick) observeWaiting
    (process_kick w.config) w.start es

/-- Nothing that was received asks for the kicker or the dribbler: no kick waits, and the latest
dribble flag that a datagram had is clear. -/
def World.AsksNothing (w : World K) (es : List (Event K)) : Prop :=
  w.kickWaits es = false ∧
    lastField w.start.cmd (polls (w.history es)) 5 = some (.bool false)

def FlagsClear (s : State K) : Prop := s.cmd.kick = false ∧ s.cmd.dribble = false

theorem World.flagsClear_iff {w : World K} {es : List (Event K)}
    (hstop : STOP ∉ polls (w.history es)) : FlagsClear (w.after es) ↔ w.AsksNothing es := by
  unfold FlagsClear World.AsksNothing
  rw [w.kick_eq_kickWaits, w.dribble_eq_held hstop, ← member_held]
  simp [CmdDecoder.members]

end

/-! ## A lost link -/

section

variable [Field K] [LinearOrder K] [FloorRing K] [Libm K]

omit [FloorRing K] in
/-- Polls that find nothing leave the decoder alone, and so do kicks that find no kick flag. -/
theorem Link.cmd_foldl_of_timeouts {wheel : WheelMath K} {os : List (Effect K)}
    (hpolls : ∀ msg ∈ polls os, msg = TIMEOUT) {l : Link K}
    (hkick : ∀ ok, .command 'K' ok ∈ os → l.cmd.kick = false) :
    (os.foldl (Link.observe wheel) l).cmd = l.cmd := by
  induction os generalizing l with
  | nil => rfl
  | cons o os ih =>
    have hcmd : (l.observe wheel o).cmd = l.cmd := by
      cases o with
      | recv msg =>
        have ht : msg = TIMEOUT := hpolls msg List.mem_cons_self
        simp only [Link.observe, Link.poll, if_pos ht]
      | command byte ok =>
        simp only [Link.observe]
        split
        · rename_i hb
          subst hb
          exact CmdDecoder.clearKick_of_kick_eq_false (hkick ok List.mem_cons_self)
        · rfl
      | _ => rfl
    rw [List.foldl_cons, ih, hcmd]
    · intro msg hmsg
      refine hpolls msg ?_
      cases o with
      | recv msg' => exact List.mem_cons_of_mem _ hmsg
      | _ => exact hmsg
    · intro ok hok
      rw [hcmd]
      exact hkick ok (List.mem_cons_of_mem _ hok)

/-- From this state on the Arduino is told to stop: every step that commands it issues `S`, and no
other byte is issued. -/
structure OnlyStops (cfg : Config K) (s : State K) (es : List (Event K)) : Prop where
  stops : ∀ pre input post, es = pre ++ .step input :: post →
    CommandsArduino cfg ((process cfg).after s pre) →
      ∃ ok, .command 'S' ok ∈ (process cfg ((process cfg).after s pre) (.step input)).2
  only : ∀ byte ok, .command byte ok ∈ (process cfg).trace s es → byte = 'S'

/-- **The Arduino is told to stop exactly when every step that commands it finds both flags
clear.** -/
theorem onlyStops_iff {cfg : Config K} {s : State K} {es : List (Event K)} :
    OnlyStops cfg s es ↔
      ∀ pre input post, es = pre ++ .step input :: post →
        CommandsArduino cfg ((process cfg).after s pre) →
          FlagsClear ((process cfg).after s pre) := by
  constructor
  · rintro ⟨hstops, -⟩ pre input post hes hc
    obtain ⟨-, -, -, hbyte⟩ := command_mem_process.mp (hstops pre input post hes hc)
    exact arduinoByte_eq_S.mp hbyte.symm
  · intro hclear
    constructor
    · intro pre input post hes hc
      exact command_mem_process.mpr ⟨⟨input, rfl⟩, hc.1, hc.2,
        (arduinoByte_eq_S.mpr (hclear pre input post hes hc)).symm⟩
    · intro byte ok ho
      obtain ⟨pre, e, post, rfl, hout⟩ := Machine.mem_trace.mp ho
      obtain ⟨⟨input, rfl⟩, hpc, hc, rfl⟩ := command_mem_process.mp ⟨ok, hout⟩
      exact arduinoByte_eq_S.mpr (hclear pre input post rfl ⟨hpc, hc⟩)

/-- Where the Arduino is commanded, no `STOP` has been polled. -/
theorem World.stop_not_polled {w : World K} {es : List (Event K)}
    (hc : CommandsArduino w.config (w.after es)) : STOP ∉ polls (w.history es) := by
  intro hmem
  have hpc := hc.1
  rw [(World.stop_last hmem).1] at hpc
  cases hpc

/-- While the polls find nothing, and no kick is issued but where none is asked for, the decoder
stays as it was. -/
theorem cmd_after_of_timeouts {cfg : Config K} {s : State K} {pre post : List (Event K)}
    (hpolls : ∀ msg ∈ polls ((process cfg).trace s (pre ++ post)), msg = TIMEOUT)
    (hkick : ∀ ok, .command 'K' ok ∈ (process cfg).trace s (pre ++ post) → s.cmd.kick = false) :
    ((process cfg).after s pre).cmd = s.cmd := by
  rw [Machine.trace_append] at hpolls hkick
  rw [polls_append] at hpolls
  have hlink := congrArg Link.cmd (link_run cfg s pre)
  rw [Link.cmd_foldl_of_timeouts (fun msg hmsg => hpolls msg (List.mem_append_left _ hmsg))
    fun ok hok => hkick ok (List.mem_append_left _ hok)] at hlink
  exact hlink

/-- While the polls find nothing, it is enough to look at the flags where the link was lost. -/
theorem onlyStops_iff_of_timeouts {cfg : Config K} {s : State K} {es : List (Event K)}
    (hpolls : ∀ msg ∈ polls ((process cfg).trace s es), msg = TIMEOUT)
    (hstep : ∃ pre input post, es = pre ++ .step input :: post ∧
      CommandsArduino cfg ((process cfg).after s pre)) :
    OnlyStops cfg s es ↔ FlagsClear s := by
  constructor
  · intro hstops
    obtain ⟨pre, input, post, rfl, hc⟩ := hstep
    -- No `K` was issued on the way, so the flags that the step finds are those of the start.
    have heq := cmd_after_of_timeouts hpolls fun ok hok =>
      absurd (hstops.only 'K' ok hok) (by decide)
    have hclear := onlyStops_iff.mp hstops pre input post rfl hc
    unfold FlagsClear at hclear ⊢
    rwa [heq] at hclear
  · intro hclear
    apply onlyStops_iff.mpr
    intro pre input post hes _
    subst hes
    have heq := cmd_after_of_timeouts hpolls fun _ _ => hclear.1
    unfold FlagsClear
    rwa [heq]

/-- A kick is asked for: by some command since the last `K` that went out. -/
def observePending (pending : Bool) : Effect K → Bool
  | .recv msg =>
    match command? (K := K) msg with
    | some c => pending || c.kick
    | none => pending
  | .command byte ok => if byte = 'K' ∧ ok = true then false else pending
  | _ => pending

/-- A kick is asked for: by the latest command, and no `K` has been issued since it. -/
def observeFresh (fresh : Bool) : Effect K → Bool
  | .recv msg =>
    match command? (K := K) msg with
    | some c => c.kick
    | none => fresh
  | .command byte _ => if byte = 'K' then false else fresh
  | _ => fresh

def pendingKick (h : List (Effect K)) : Bool := h.foldl observePending false

def freshKick (h : List (Effect K)) : Bool := h.foldl observeFresh false

omit [LinearOrder K] [Libm K] [FloorRing K] in
theorem observeFresh_inert (fresh : Bool) (o : Effect K) (h : o.Inert) :
    observeFresh fresh o = fresh := by
  cases o with
  | recv msg => exact absurd rfl h.1
  | command byte ok => exact absurd rfl h.2
  | _ => rfl

omit [LinearOrder K] [Libm K] [FloorRing K] in
theorem pendingKick_of_freshKick {h : List (Effect K)} (hfresh : freshKick h = true) :
    pendingKick h = true := by
  unfold pendingKick freshKick at *
  induction h using List.reverseRecOn with
  | nil => cases hfresh
  | append_singleton h o ih =>
    rw [List.foldl_append, List.foldl_cons, List.foldl_nil] at hfresh ⊢
    cases o with
    | recv msg =>
      simp only [observeFresh, observePending] at hfresh ⊢
      cases hc : command? (K := K) msg with
      | some c =>
        simp only [hc] at hfresh ⊢
        rw [hfresh, Bool.or_true]
      | none =>
        simp only [hc] at hfresh ⊢
        exact ih hfresh
    | command byte ok =>
      simp only [observeFresh, observePending] at hfresh ⊢
      split at hfresh
      · cases hfresh
      · rename_i hb
        rw [if_neg fun h => hb h.1]
        exact ih hfresh
    | _ => exact ih hfresh

omit [FloorRing K] in
/-- On well-formed traffic the kick flag of the decoder says whether there is a fresh request. -/
theorem Link.kick_foldl {wheel : WheelMath K} {os : List (Effect K)}
    (htraffic : ∀ msg ∈ polls os, msg = TIMEOUT ∨ WellFormed K msg) (l : Link K) :
    (os.foldl (Link.observe wheel) l).cmd.kick = os.foldl observeFresh l.cmd.kick := by
  induction os generalizing l with
  | nil => rfl
  | cons o os ih =>
    have hos : ∀ msg ∈ polls os, msg = TIMEOUT ∨ WellFormed K msg := by
      intro msg hmsg
      refine htraffic msg ?_
      cases o with
      | recv msg' => exact List.mem_cons_of_mem _ hmsg
      | _ => exact hmsg
    have hkick : (l.observe wheel o).cmd.kick = observeFresh l.cmd.kick o := by
      cases o with
      | recv msg =>
        rcases htraffic msg List.mem_cons_self with rfl | hwf
        · rfl
        · -- A well-formed command sets the flag to what it asks for, whatever the decoder held.
          obtain ⟨c, hc⟩ := Option.isSome_iff_exists.mp hwf
          have hne : msg ≠ TIMEOUT ∧ msg ≠ STOP := by
            constructor <;> rintro rfl <;> cases hc
          simp only [Link.observe, Link.poll, observeFresh, if_neg hne.1, if_neg hne.2, hc,
            CmdDecoder.decodeCmd_wellFormed hc]
      | command byte ok =>
        simp only [Link.observe, observeFresh]
        split <;> rfl
      | _ => rfl
    rw [List.foldl_cons, List.foldl_cons, ih hos, hkick]

def IssuesKick (cfg : Config K) (s : State K) (input : Input K) : Prop :=
  ∃ ok, .command 'K' ok ∈ (process cfg s (.step input)).2

theorem World.issuesKick_iff_freshKick {w : World K} {es : List (Event K)} (input : Input K)
    (htraffic : ∀ msg ∈ polls (w.history es), msg = TIMEOUT ∨ WellFormed K msg)
    (hc : CommandsArduino w.config (w.after es)) :
    IssuesKick w.config (w.after es) input ↔ freshKick (w.history es) = true := by
  have hkick : (w.after es).cmd.kick = freshKick (w.history es) := by
    rw [World.polls_history] at htraffic
    have hlink := congrArg (·.cmd.kick) (link_run w.config w.start es)
    simp only [Link.kick_foldl htraffic] at hlink
    rw [freshKick, World.foldl_history observeFresh_inert]
    exact hlink
  rw [IssuesKick, command_mem_process, ← hkick, ← arduinoByte_eq_K]
  exact ⟨fun h => h.2.2.2.symm, fun h => ⟨⟨input, rfl⟩, hc.1, hc.2, h.symm⟩⟩

/-- **Which Arduino steps serve the kick requests as they should.** On well-formed traffic an
Arduino step issues `K` when and only when a request is pending, exactly if no request is pending or
the latest command is one that asks for a kick and no `K` has been issued since. -/
theorem World.issues_kick_iff (w : World K) (es : List (Event K)) (input : Input K)
    (htraffic : ∀ msg ∈ polls (w.history es), msg = TIMEOUT ∨ WellFormed K msg)
    (hc : CommandsArduino w.config (w.after es)) :
    (IssuesKick w.config (w.after es) input ↔ pendingKick (w.history es) = true) ↔
      (pendingKick (w.history es) = true → freshKick (w.history es) = true) := by
  rw [World.issuesKick_iff_freshKick input htraffic hc]
  exact ⟨fun h => h.mpr, fun h => ⟨pendingKick_of_freshKick, h⟩⟩

theorem World.issues_kick_iff_bench :
    let w := World.bench ℝ
    let es := arrival "1 0 0 0 1 0 0" :: (turn ℝ).take 5
    IssuesKick w.config (w.after es) (.bench ℝ) ↔ pendingKick (w.history es) = true := by
  refine ((World.bench ℝ).issues_kick_iff _ (.bench ℝ) ?_
    ⟨by decide +kernel, by decide +kernel⟩).mpr fun _ => by decide +kernel
  intro msg hmsg
  have hpolls : polls ((World.bench ℝ).history (arrival "1 0 0 0 1 0 0" :: (turn ℝ).take 5)) =
      ["1 0 0 0 1 0 0".toList] := by decide +kernel
  rw [hpolls] at hmsg
  rw [List.mem_singleton.mp hmsg]
  exact Or.inr (by decide +kernel)

/-- The Arduino step behind these events, on well-formed traffic, leaves a pending request
unserved. -/
def World.LosesKick (w : World K) (es : List (Event K)) (input : Input K) : Prop :=
  (∀ msg ∈ polls (w.history es), msg = TIMEOUT ∨ WellFormed K msg) ∧
    CommandsArduino w.config (w.after es) ∧ pendingKick (w.history es) = true ∧
    ¬ IssuesKick w.config (w.after es) input

/-- A kick request, and a command with `kick = 0` that is polled before the Arduino block is due. -/
noncomputable def overwritten : List (Event ℝ) :=
  arrival "1 0 0 0 1 0 0" :: turn ℝ ++ arrival "1 0 0 0 0 0 0" ::
    List.replicate 5 (.step { Input.bench ℝ with now := 100000000 })

/-- A kick request, and a write that fails. -/
noncomputable def unwritten : List (Event ℝ) :=
  arrival "1 0 0 0 1 0 0" ::
    List.replicate 6 (.step { Input.bench ℝ with write := ⟨false, true⟩ }) ++ (turn ℝ).take 5

/-- **Two lost requests**: one to a later command, with an Arduino interval of 100 ms, and one to a
write that fails. -/
theorem World.kick_lost :
    { World.bench ℝ with
        mainConfig :=
          .ok ({ reciver := 0, sender := 0, arduino := 100, camera := 0, motor := 0 }, 5)
        : World ℝ }.LosesKick overwritten (.bench ℝ) ∧
      (World.bench ℝ).LosesKick unwritten (.bench ℝ) := by
  have hkick : ∀ {w : World ℝ} {es : List (Event ℝ)}, (w.after es).cmd.kick = false →
      ¬ IssuesKick w.config (w.after es) (.bench ℝ) := by
    intro w es hfalse hissues
    rw [arduinoByte_eq_K.mp (command_mem_process.mp hissues).2.2.2.symm] at hfalse
    cases hfalse
  constructor
  · exact ⟨by decide +kernel, ⟨by decide +kernel, by decide +kernel⟩, by decide +kernel,
      hkick (by decide +kernel)⟩
  · exact ⟨by decide +kernel, ⟨by decide +kernel, by decide +kernel⟩, by decide +kernel,
      hkick (by decide +kernel)⟩

end

end RobotFramework.Main
