import RobotFramework.Lib.Periodic
import RobotFramework.Main.Exit
import RobotFramework.Main.SenderData
import RobotFramework.Main.Wheels

/-!
# When the blocks run

Each block of the loop body has a timer of its own and runs on the turns on which its interval has
passed. On the clock of the loop that is a periodic task (`World.lasts_eq`): two runs are never
less than the interval apart, and where the turns are close together not much more
(`World.blocks_periodic`). So what the receiver counts in polls has a limit in time, too: a while
after the last datagram has been read every motor cycle tells the motors to stand still
(`World.silence_stops`).
-/

namespace RobotFramework.Main

open Cxx Moteus Reactive

variable {K : Type}

/-! ## Blocks and timers -/

/-- The blocks of the loop body. -/
inductive Block where
  | receiver
  | camera
  | motor
  | sender
  | arduino
deriving DecidableEq

namespace Block

def place : Block → Pc
  | .receiver => .receiver
  | .camera => .camera
  | .motor => .motor
  | .sender => .sender
  | .arduino => .arduino

def last : Block → Timers → Int
  | .receiver => Timers.lastReciverTime
  | .camera => Timers.lastCameraTime
  | .motor => Timers.lastMotorTime
  | .sender => Timers.lastSenderTime
  | .arduino => Timers.lastArduinoTime

/-- Note that the block has run. -/
def set : Block → Timers → Int → Timers
  | .receiver => setReciver
  | .camera => setCamera
  | .motor => setMotor
  | .sender => setSender
  | .arduino => setArduino

/-- Every block notes the time for itself. -/
theorem last_set (block : Block) (timers : Timers) (t : Int) :
    (fun b => Block.last b (block.set timers t)) =
      Function.update (fun b => Block.last b timers) block t := by
  funext b
  by_cases h : b = block
  · rw [h, Function.update_self]
    cases block <;> rfl
  · rw [Function.update_of_ne h]
    cases block <;> cases b <;> first | rfl | exact absurd rfl h

def interval (intervals : Intervals) : Block → Int
  | .receiver => intervals.reciver
  | .camera => intervals.camera
  | .motor => intervals.motor
  | .sender => intervals.sender
  | .arduino => intervals.arduino

/-- The interval in nanoseconds, as the clock counts. -/
def nanos (cfg : Config K) (block : Block) : Int := block.interval cfg.intervals * 1000000

/-- The places of a turn up to the block. -/
def ahead : Block → List Pc
  | .receiver => [.receiver]
  | .camera => [.receiver, .camera]
  | .motor => [.receiver, .camera, .motor]
  | .sender => [.receiver, .camera, .motor, .sender]
  | .arduino => [.receiver, .camera, .motor, .sender, .arduino]

theorem place_injective {block block' : Block} (h : block.place = block'.place) :
    block = block' := by
  cases block <;> cases block' <;> first | rfl | cases h

end Block

/-- The timers of the blocks. -/
def State.lasts (s : State K) : Option (Block → Int) :=
  s.timers.map fun timers block => block.last timers

/-- The block runs in this state. -/
def State.runs (s : State K) (cfg : Config K) (block : Block) : Prop :=
  s.pc = block.place ∧ s.due block.last (block.interval cfg.intervals) = true

instance (s : State K) (cfg : Config K) (block : Block) : Decidable (s.runs cfg block) :=
  inferInstanceAs (Decidable (_ ∧ _))

/-- The loop goes round once more. -/
def State.turns (s : State K) : Prop :=
  s.pc = .head ∧ (s.emergencyStop || s.manualStopFlag) = false

instance (s : State K) : Decidable s.turns := inferInstanceAs (Decidable (_ ∧ _))

/-- What a step does to a clock reading and to the timers of the blocks. -/
structure Ticks (s s' : State K) (block : Block) (ran : Prop) [Decidable ran] : Prop where
  currentTime : s'.currentTime = s.currentTime
  lasts : s'.lasts =
    if ran then s.lasts.map (Function.update · block s.currentTime) else s.lasts

theorem State.lasts_stamp (block : Block) {s s' : State K}
    (htimers : s'.timers.map (fun timers b => Block.last b timers) = s.lasts)
    (htime : s'.currentTime = s.currentTime) :
    (s'.stamp block.set).lasts = s.lasts.map (Function.update · block s.currentTime) := by
  rw [← htimers, Option.map_map, ← htime]
  show (s'.timers.map _).map _ = _
  rw [Option.map_map]
  congr 1
  funext timers
  exact block.last_set timers s'.currentTime

section

variable [Field K] [LinearOrder K] [Libm K] {cfg : Config K} {input : Input K} {s : State K}

theorem ticks_receiver :
    Ticks s (receiver cfg input s).1 .receiver (s.receives cfg) := by
  by_cases hdue : s.receives cfg
  · by_cases ht : s.udp.receive.2 = TIMEOUT
    · rw [receiver_timeout hdue ht]
      have htime : (onTimeout s.polled).1.currentTime = s.currentTime := by
        unfold onTimeout
        dsimp only
        split <;> rfl
      have htimers : (onTimeout s.polled).1.timers = s.timers := by
        unfold onTimeout
        dsimp only
        split <;> rfl
      refine ⟨htime, ?_⟩
      rw [if_pos hdue]
      exact State.lasts_stamp .receiver (by rw [htimers]; rfl) htime
    · by_cases hs : s.udp.receive.2 = STOP
      · rw [receiver_stop hdue hs]
        refine ⟨rfl, ?_⟩
        rw [if_pos hdue]
        exact State.lasts_stamp .receiver rfl rfl
      · rw [receiver_command hdue ht hs]
        refine ⟨rfl, ?_⟩
        rw [if_pos hdue]
        -- The time of the last message is none of the blocks' timers.
        have htimers : (onCommand cfg s.polled).1.timers.map (fun timers b => Block.last b timers) =
            s.lasts := by
          show (s.timers.map _).map _ = _
          rw [Option.map_map]
          congr 1
          funext timers b
          cases b <;> rfl
        exact State.lasts_stamp .receiver htimers rfl
  · rw [receiver_idle hdue]
    refine ⟨rfl, ?_⟩
    rw [if_neg hdue]
    rfl

variable [FloorRing K]

omit [Libm K] in
theorem ticks_camera : Ticks s (camera cfg s).1 .camera (s.due Timers.lastCameraTime
    cfg.intervals.camera = true) := by
  by_cases hdue : s.due Timers.lastCameraTime cfg.intervals.camera = true
  · rw [camera_due hdue]
    refine ⟨rfl, ?_⟩
    rw [if_pos hdue]
    exact State.lasts_stamp .camera rfl rfl
  · rw [camera_idle hdue]
    refine ⟨rfl, ?_⟩
    rw [if_neg hdue]
    rfl

theorem ticks_motor : Ticks s (motor cfg input s).1 .motor (s.cycles cfg) := by
  by_cases hdue : s.cycles cfg
  · rw [motor_due hdue]
    refine ⟨rfl, ?_⟩
    rw [if_pos hdue]
    exact State.lasts_stamp .motor rfl rfl
  · rw [motor_idle hdue]
    refine ⟨rfl, ?_⟩
    rw [if_neg hdue]
    rfl

omit [Libm K] in
theorem ticks_sender : Ticks s (sender cfg s).1 .sender (s.due Timers.lastSenderTime
    cfg.intervals.sender = true) := by
  by_cases hdue : s.due Timers.lastSenderTime cfg.intervals.sender = true
  · rw [sender_due hdue]
    refine ⟨rfl, ?_⟩
    rw [if_pos hdue]
    exact State.lasts_stamp .sender rfl rfl
  · rw [sender_idle hdue]
    refine ⟨rfl, ?_⟩
    rw [if_neg hdue]
    rfl

omit [Field K] [LinearOrder K] [FloorRing K] [Libm K] in
/-- The Arduino block notes the time with an Arduino and without. -/
theorem ticks_arduino : Ticks s (arduino cfg input s).1 .arduino (s.due Timers.lastArduinoTime
    cfg.intervals.arduino = true) := by
  unfold arduino
  by_cases hdue : s.due Timers.lastArduinoTime cfg.intervals.arduino = true
  · have hdue' : ({ s with pc := .head } : State K).due (·.lastArduinoTime) cfg.intervals.arduino =
        true := hdue
    simp only [hdue', if_true]
    split
    · split
      · refine ⟨rfl, ?_⟩
        rw [if_pos hdue]
        exact State.lasts_stamp .arduino rfl rfl
      · split
        · refine ⟨rfl, ?_⟩
          rw [if_pos hdue]
          exact State.lasts_stamp .arduino rfl rfl
        · refine ⟨rfl, ?_⟩
          rw [if_pos hdue]
          exact State.lasts_stamp .arduino rfl rfl
    · refine ⟨rfl, ?_⟩
      rw [if_pos hdue]
      exact State.lasts_stamp .arduino rfl rfl
  · have hdue' : ¬ ({ s with pc := .head } : State K).due (·.lastArduinoTime)
        cfg.intervals.arduino = true := hdue
    simp only [hdue', if_false, Bool.false_eq_true]
    refine ⟨rfl, ?_⟩
    rw [if_neg hdue]
    rfl

end

theorem State.due_iff (s : State K) (cfg : Config K) (block : Block) :
    s.due block.last (block.interval cfg.intervals) = true ↔
      ∃ lasts, s.lasts = some lasts ∧ block.nanos cfg ≤ s.currentTime - lasts block := by
  unfold State.due State.lasts
  cases s.timers with
  | none => simp
  | some timers => simp [Block.nanos]

section

variable [Field K] [LinearOrder K] [FloorRing K] [Libm K] {cfg : Config K} {s : State K}

/-! ## Steps -/

theorem next_block (input : Input K) {block : Block} (hpc : s.pc = block.place) :
    Ticks s (next cfg input s).1 block
      (s.due block.last (block.interval cfg.intervals) = true) := by
  unfold next
  cases block with
  | receiver =>
    simp only [hpc, Block.place]
    exact ticks_receiver
  | camera =>
    simp only [hpc, Block.place]
    exact ticks_camera
  | motor =>
    simp only [hpc, Block.place]
    exact ticks_motor
  | sender =>
    simp only [hpc, Block.place]
    exact ticks_sender
  | arduino =>
    simp only [hpc, Block.place]
    exact ticks_arduino

/-- A block that is not due has no effect. -/
theorem next_silent (input : Input K) {block : Block} (hpc : s.pc = block.place)
    (hidle : ¬ s.runs cfg block) : (next cfg input s).2 = [] := by
  have hdue : ¬ s.due block.last (block.interval cfg.intervals) = true :=
    fun hdue => hidle ⟨hpc, hdue⟩
  unfold next
  cases block with
  | receiver =>
    simp only [hpc, Block.place]
    rw [receiver_idle hdue]
  | camera =>
    simp only [hpc, Block.place]
    rw [camera_idle hdue]
  | motor =>
    simp only [hpc, Block.place]
    rw [motor_idle hdue]
  | sender =>
    simp only [hpc, Block.place]
    rw [sender_idle hdue]
  | arduino =>
    simp only [hpc, Block.place]
    obtain ⟨timers, heq⟩ := arduino_idle (K := K) input fun h => hdue h.1
    rw [heq]

theorem next_turn (input : Input K) (h : s.turns) :
    (next cfg input s).1.currentTime = input.now ∧
      (next cfg input s).1.lasts = some (s.lasts.getD fun _ => input.now) := by
  obtain ⟨hpc, hflags⟩ := h
  rw [Bool.or_eq_false_iff] at hflags
  have hhead : (next cfg input s).1 = { s with
      pc := .receiver
      currentTime := input.now
      timers := some (s.timers.getD (Timers.all input.now)) } := by
    simp [next, hpc, head, hflags]
  rw [hhead]
  refine ⟨rfl, ?_⟩
  unfold State.lasts
  cases s.timers with
  | none =>
    simp only [Option.getD_none, Option.map_some, Option.map_none]
    congr 1
    funext block
    cases block <;> rfl
  | some timers => rfl

/-- Off the blocks and without another turn, no time passes. -/
theorem next_rest (input : Input K) (hturn : ¬ s.turns) (hpc : ∀ block : Block, s.pc ≠ block.place) :
    (next cfg input s).1.currentTime = s.currentTime ∧ (next cfg input s).1.lasts = s.lasts := by
  unfold next
  cases hs : s.pc with
  | head =>
    have hflags : ¬ (!s.emergencyStop && !s.manualStopFlag) = true := by
      intro hgo
      apply hturn
      refine ⟨hs, ?_⟩
      simpa using hgo
    simp only [head]
    rw [if_neg hflags]
    exact ⟨rfl, rfl⟩
  | receiver => exact absurd hs (hpc .receiver)
  | camera => exact absurd hs (hpc .camera)
  | motor => exact absurd hs (hpc .motor)
  | sender => exact absurd hs (hpc .sender)
  | arduino => exact absurd hs (hpc .arduino)
  | shutdown => exact ⟨rfl, rfl⟩
  | exited => exact ⟨rfl, rfl⟩

end

/-! ## Turns, visits and runs -/

/-- The clock reading with which a turn of the loop begins. -/
def turnAt (s : State K) : Event K → List Int
  | .step input => if s.turns then [input.now] else []
  | _ => []

/-- The time at which the loop gets to a block. -/
def visitAt (block : Block) (s : State K) : Event K → List Int
  | .step _ => if s.pc = block.place then [s.currentTime] else []
  | _ => []

/-- The time at which a block runs. -/
def runAt (cfg : Config K) (block : Block) (s : State K) : Event K → List Int
  | .step _ => if s.runs cfg block then [s.currentTime] else []
  | _ => []

/-- The turns have all got to a block, but for the one that is ahead of it, and one that a `STOP`
has ended. -/
def Passes (block : Block) (s : State K) (turns visits : List Int) : Prop :=
  s.pc ∈ block.ahead ∧ turns = visits ++ [s.currentTime] ∨
    s.pc ∉ block.ahead ∧ (turns = visits ∨ s.pc = .exited ∧ visits <+: turns)

section

variable [Field K] [LinearOrder K] [FloorRing K] [Libm K] {cfg : Config K} {s : State K}

theorem next_currentTime (input : Input K) (h : ¬ s.turns) :
    (next cfg input s).1.currentTime = s.currentTime := by
  by_cases hblock : ∃ block : Block, s.pc = block.place
  · obtain ⟨block, hpc⟩ := hblock
    exact (next_block input hpc).currentTime
  · push Not at hblock
    exact (next_rest input h hblock).1

theorem Passes.step {block : Block} {turns visits : List Int} (h : Passes block s turns visits)
    (input : Input K) :
    Passes block (next cfg input s).1 (turns ++ turnAt s (.step input))
      (visits ++ visitAt block s (.step input)) := by
  unfold Passes
  rw [turnAt, visitAt, next_pc]
  by_cases hturn : s.turns
  · -- A turn begins in front of every block.
    obtain ⟨hpc, hflags⟩ := id hturn
    have hahead : s.pc ∉ block.ahead := by
      rw [hpc]
      cases block <;> decide
    have hplace : ¬ s.pc = block.place := by
      rw [hpc]
      cases block <;> decide
    have hnext : s.nextPc cfg = .receiver := by
      simp [State.nextPc, hpc, hflags]
    rcases h with ⟨hin, -⟩ | ⟨-, heq | ⟨hexited, -⟩⟩
    · exact absurd hin hahead
    · left
      rw [if_pos hturn, if_neg hplace, hnext, heq, (next_turn input hturn).1, List.append_nil]
      refine ⟨?_, rfl⟩
      cases block <;> decide
    · rw [hpc] at hexited
      cases hexited
  · rw [if_neg hturn, List.append_nil, next_currentTime input hturn]
    by_cases hplace : s.pc = block.place
    · rw [if_pos hplace]
      right
      have hin : s.pc ∈ block.ahead := by
        rw [hplace]
        cases block <;> decide
      constructor
      · rw [State.nextPc, hplace]
        cases block with
        | receiver =>
          simp only [Block.place]
          split <;> decide
        | _ => simp [Block.place, Block.ahead]
      · left
        rcases h with ⟨-, heq⟩ | ⟨hout, -⟩
        · exact heq
        · exact absurd hin hout
    · rw [if_neg hplace, List.append_nil]
      rcases h with ⟨hin, heq⟩ | ⟨hout, hall⟩
      · -- Between the head of the loop and the block the turn goes on, or a `STOP` ends it.
        by_cases hexit : s.nextPc cfg = .exited
        · right
          rw [hexit]
          refine ⟨?_, Or.inr ⟨rfl, ?_⟩⟩
          · cases block <;> decide
          · rw [heq]
            exact List.prefix_append _ _
        · left
          refine ⟨?_, heq⟩
          rw [State.nextPc] at hexit ⊢
          cases block <;> cases hpc : s.pc <;> simp_all [Block.ahead, Block.place]
      · right
        constructor
        · intro hin
          apply hturn
          rw [State.nextPc] at hin
          unfold State.turns
          cases hpc : s.pc with
          | head =>
            refine ⟨rfl, ?_⟩
            by_contra hflags
            simp only [hpc, Bool.not_eq_false] at hin hflags
            rw [if_pos hflags] at hin
            cases block <;> simp [Block.ahead] at hin
          | _ =>
            exfalso
            cases block <;> simp_all [Block.ahead, Block.place]
        · rcases hall with heq | ⟨hexited, hprefix⟩
          · exact Or.inl heq
          · right
            refine ⟨?_, hprefix⟩
            rw [State.nextPc, hexited]

end

namespace World

variable [Field K] [LinearOrder K] [FloorRing K] [Libm K]

/-- The times of the turns of the loop. -/
def turns (w : World K) (es : List (Event K)) : List Int :=
  ((process w.config).probe turnAt).trace w.start es

/-- The times at which the loop has got to a block. -/
def visits (w : World K) (block : Block) (es : List (Event K)) : List Int :=
  ((process w.config).probe (visitAt block)).trace w.start es

/-- The times at which a block has run. -/
def runs (w : World K) (block : Block) (es : List (Event K)) : List Int :=
  ((process w.config).probe (runAt w.config block)).trace w.start es

/-- The time of the first turn. -/
def began (w : World K) (es : List (Event K)) : Int := (w.turns es).headD 0

theorem turns_snoc (w : World K) (es : List (Event K)) (e : Event K) :
    w.turns (es ++ [e]) = w.turns es ++ turnAt (w.after es) e :=
  Machine.trace_probe_snoc _ _ _ _

theorem visits_snoc (w : World K) (block : Block) (es : List (Event K)) (e : Event K) :
    w.visits block (es ++ [e]) = w.visits block es ++ visitAt block (w.after es) e :=
  Machine.trace_probe_snoc _ _ _ _

theorem runs_snoc (w : World K) (block : Block) (es : List (Event K)) (e : Event K) :
    w.runs block (es ++ [e]) = w.runs block es ++ runAt w.config block (w.after es) e :=
  Machine.trace_probe_snoc _ _ _ _

/-- **Every turn gets to every block once**, up to the one that is under way or that a `STOP` has
ended. -/
theorem turns_eq (w : World K) (block : Block) (es : List (Event K)) :
    Passes block (w.after es) (w.turns es) (w.visits block es) := by
  induction es using List.reverseRecOn with
  | nil =>
    right
    refine ⟨?_, Or.inl rfl⟩
    cases block <;> simp [after, start, Block.ahead]
  | append_singleton es e ih =>
    rw [turns_snoc, visits_snoc, after_snoc]
    cases e with
    | step input => exact ih.step input
    | arrive d =>
      simp only [turnAt, visitAt, List.append_nil]
      exact ih
    | signal =>
      simp only [turnAt, visitAt, List.append_nil]
      exact ih
    | observe obs =>
      simp only [turnAt, visitAt, List.append_nil]
      exact ih

theorem visits_prefix (w : World K) (block : Block) (es : List (Event K)) :
    w.visits block es <+: w.turns es := by
  rcases w.turns_eq block es with ⟨-, heq⟩ | ⟨-, heq | ⟨-, hprefix⟩⟩
  · rw [heq]
    exact List.prefix_append _ _
  · rw [heq]
  · exact hprefix

/-- **The timers are those of periodic tasks** on the clock of the loop. -/
theorem lasts_eq (w : World K) (es : List (Event K)) :
    (w.after es).lasts = (w.turns es).head?.map fun began block =>
      Periodic.lastRun (block.nanos w.config) began (w.visits block es) := by
  induction es using List.reverseRecOn with
  | nil => rfl
  | append_singleton es e ih =>
    rw [turns_snoc, after_snoc]
    simp only [visits_snoc]
    cases e with
    | step input =>
      by_cases hturn : (w.after es).turns
      · -- The first turn starts the timers; later ones leave them alone.
        have hvisit : ∀ block, visitAt block (w.after es) (.step input) = [] := by
          intro block
          rw [visitAt, hturn.1]
          cases block <;> rfl
        have hlasts : (process w.config (w.after es) (.step input)).1.lasts =
            some ((w.after es).lasts.getD fun _ => input.now) := (next_turn input hturn).2
        rw [hlasts, ih, turnAt, if_pos hturn]
        simp only [hvisit, List.append_nil]
        cases hturns : w.turns es with
        | nil =>
          simp only [List.head?_nil, Option.map_none, Option.getD_none, List.nil_append,
            List.head?_cons, Option.map_some, Option.some_inj]
          funext block
          have hvisits := w.visits_prefix block es
          rw [hturns, List.prefix_nil] at hvisits
          rw [hvisits, Periodic.lastRun_nil]
        | cons began turns => rfl
      · rw [turnAt, if_neg hturn, List.append_nil]
        by_cases hblock : ∃ block : Block, (w.after es).pc = block.place
        · obtain ⟨block, hpc⟩ := hblock
          have hlasts : (process w.config (w.after es) (.step input)).1.lasts = _ :=
            (next_block input hpc).lasts
          rw [hlasts]
          cases hturns : (w.turns es).head? with
          | none =>
            rw [hturns, Option.map_none] at ih
            rw [ih]
            split <;> rfl
          | some began =>
            rw [hturns, Option.map_some] at ih
            rw [Option.map_some]
            have hdue := State.due_iff (w.after es) w.config block
            rw [ih] at hdue ⊢
            simp only [Option.some_inj, exists_eq_left'] at hdue
            have hown : visitAt block (w.after es) (.step input) = [(w.after es).currentTime] :=
              if_pos hpc
            have hother : ∀ b : Block, b ≠ block → visitAt b (w.after es) (.step input) = [] := by
              intro b hb
              apply if_neg
              intro hplace
              exact hb (Block.place_injective (hplace.symm.trans hpc))
            have hlast : ∀ b : Block, Periodic.lastRun (b.nanos w.config) began
                (w.visits b es ++ visitAt b (w.after es) (.step input)) =
                  if b = block ∧
                    (w.after es).due block.last (block.interval w.config.intervals) = true
                  then (w.after es).currentTime
                  else Periodic.lastRun (b.nanos w.config) began (w.visits b es) := by
              intro b
              by_cases hb : b = block
              · rw [hb, hown, Periodic.lastRun_snoc]
                simp only [true_and, hdue]
              · rw [hother b hb, List.append_nil, if_neg fun h => hb h.1]
            split
            · rename_i hruns
              rw [Option.map_some, Option.some_inj]
              funext b
              rw [hlast b]
              by_cases hb : b = block
              · rw [hb, Function.update_self, if_pos ⟨rfl, hruns⟩]
              · rw [Function.update_of_ne hb, if_neg fun h => hb h.1]
            · rename_i hruns
              rw [Option.some_inj]
              funext b
              rw [hlast b, if_neg fun h => hruns h.2]
        · push Not at hblock
          have hlasts : (process w.config (w.after es) (.step input)).1.lasts = _ :=
            (next_rest input hturn hblock).2
          have hvisit : ∀ block, visitAt block (w.after es) (.step input) = [] :=
            fun block => if_neg (hblock block)
          rw [hlasts, ih]
          simp only [hvisit, List.append_nil]
    | arrive d =>
      simp only [turnAt, visitAt, List.append_nil]
      exact ih
    | signal =>
      simp only [turnAt, visitAt, List.append_nil]
      exact ih
    | observe obs =>
      simp only [turnAt, visitAt, List.append_nil]
      exact ih

/-- The time of the first turn, as soon as a block has been got to. -/
theorem runs_began (w : World K) (block : Block) (es : List (Event K)) (e : Event K) :
    Periodic.runs (block.nanos w.config) (w.began (es ++ [e])) (w.visits block es) =
      Periodic.runs (block.nanos w.config) (w.began es) (w.visits block es) := by
  unfold began
  rw [turns_snoc]
  cases hturns : w.turns es with
  | nil =>
    have hvisits := w.visits_prefix block es
    rw [hturns, List.prefix_nil] at hvisits
    rw [hvisits]
    rfl
  | cons t ts => rfl

/-- A block runs on the visits on which a periodic task does. -/
theorem runs_eq (w : World K) (block : Block) (es : List (Event K)) :
    w.runs block es =
      Periodic.runs (block.nanos w.config) (w.began es) (w.visits block es) := by
  induction es using List.reverseRecOn with
  | nil => rfl
  | append_singleton es e ih =>
    rw [runs_snoc, visits_snoc, Periodic.runs_append, runs_began, ← ih]
    congr 1
    cases e with
    | step input =>
      rw [runAt, visitAt]
      by_cases hpc : (w.after es).pc = block.place
      · -- The turn has begun, so that there are timers.
        have hturns : w.turns es = w.visits block es ++ [(w.after es).currentTime] := by
          rcases w.turns_eq block es with ⟨-, heq⟩ | ⟨hout, -⟩
          · exact heq
          · apply absurd _ hout
            rw [hpc]
            cases block <;> decide
        have hhead : (w.turns es).head? = some (w.began es) := by
          unfold began
          rw [hturns]
          cases w.visits block es <;> rfl
        have hsame : w.began (es ++ [.step input]) = w.began es := by
          unfold began
          rw [turns_snoc, hturns]
          cases w.visits block es <;> rfl
        have hdue := State.due_iff (w.after es) w.config block
        rw [w.lasts_eq es, hhead, Option.map_some] at hdue
        simp only [Option.some_inj, exists_eq_left'] at hdue
        rw [if_pos hpc, hsame, Periodic.runs]
        simp only [State.runs, hpc, true_and, hdue, Periodic.runs_nil]
      · rw [if_neg hpc, if_neg fun h => hpc h.1]
        rfl
    | arrive d => rfl
    | signal => rfl
    | observe obs => rfl

/-- **Every block is a periodic task of the loop.** Whatever the clock does, two of its runs are not
less than the interval apart, and it has no effect but in its runs. Whenever the loop gets to it, it
has run no longer ago than the interval; and if the turns are no more than a gap apart, its runs are
no more than interval and gap apart. -/
theorem blocks_periodic (w : World K) (block : Block) (es : List (Event K)) :
    (w.began es :: w.runs block es).IsChain (fun a b => a + block.nanos w.config ≤ b) ∧
      (∀ pre input post, es = pre ++ .step input :: post → (w.after pre).pc = block.place →
        (process w.config (w.after pre) (.step input)).2 ≠ [] →
          (w.after pre).runs w.config block ∧ (w.after pre).currentTime ∈ w.runs block es) ∧
      (0 ≤ block.nanos w.config →
        (∀ t ∈ (w.visits block es).getLast?,
          t ≤ (w.runs block es).getLast?.getD (w.began es) + block.nanos w.config) ∧
        ∀ gap : Int, 0 ≤ gap → (w.turns es).IsChain (fun a b => b ≤ a + gap) →
          (w.began es :: w.runs block es).IsChain
            fun a b => b ≤ a + (block.nanos w.config + gap)) := by
  refine ⟨?_, ?_, ?_⟩
  · rw [runs_eq]
    exact Periodic.runs_isChain _ _ _
  · rintro pre input post rfl hpc heffect
    have hruns : (w.after pre).runs w.config block := by
      by_contra hidle
      exact heffect (next_silent input hpc hidle)
    refine ⟨hruns, ?_⟩
    apply Machine.mem_trace.mpr
    refine ⟨pre, .step input, post, rfl, ?_⟩
    rw [Machine.after_probe]
    show _ ∈ runAt w.config block (w.after pre) (.step input)
    rw [runAt, if_pos hruns]
    exact List.mem_singleton_self _
  · intro hinterval
    constructor
    · intro t ht
      obtain ⟨visits, hvisits⟩ := List.getLast?_eq_some_iff.mp ht
      rw [runs_eq, hvisits]
      exact Periodic.le_lastRun_add hinterval visits t
    · intro gap hgap hturns
      rw [runs_eq]
      have hbegan : (w.began es :: w.visits block es).IsChain fun a b => b ≤ a + gap := by
        have hprefix := w.visits_prefix block es
        have hvisits := hturns.prefix hprefix
        unfold began
        cases hall : w.visits block es with
        | nil => exact List.isChain_singleton _
        | cons t ts =>
          rw [hall] at hprefix hvisits
          obtain ⟨rest, hrest⟩ := hprefix
          rw [← hrest]
          exact List.isChain_cons_cons.mpr ⟨Int.le_add_of_nonneg_right hgap, hvisits⟩
      exact Periodic.runs_late hinterval hbegan (Int.le_add_of_nonneg_right hinterval)

end World

/-! ## A silent link -/

section

variable [Field K] [LinearOrder K] [FloorRing K] [Libm K] {s : State K}

theorem polls_runs (cfg : Config K) (input : Input K) (s : State K) :
    polls (next cfg input s).2 = if s.runs cfg .receiver then [s.udp.receive.2] else [] :=
  polls_next cfg input s

/-- No step puts anything into the queue. -/
theorem queue_next {cfg : Config K} (input : Input K) (hempty : s.udp.queue = []) :
    (next cfg input s).1.udp.queue = [] := by
  have hreceive := (s.udp.receive_empty hempty).2
  unfold next
  cases s.pc with
  | head =>
    obtain ⟨currentTime, timers, heq⟩ := head_eq input s
    simp only [heq]
    exact hempty
  | receiver =>
    by_cases hdue : s.receives cfg
    · by_cases ht : s.udp.receive.2 = TIMEOUT
      · simp only [receiver_timeout hdue ht, onTimeout]
        split <;> exact hreceive
      · by_cases hs : s.udp.receive.2 = STOP
        · simp only [receiver_stop hdue hs]
          exact hreceive
        · simp only [receiver_command hdue ht hs]
          exact hreceive
    · simp only [receiver_idle hdue]
      exact hempty
  | camera =>
    obtain ⟨timers, senderMsg, os, -, heq⟩ := camera_eq cfg s
    simp only [heq]
    exact hempty
  | motor =>
    by_cases h : s.cycles cfg
    · simp only [motor_due h]
      exact hempty
    · simp only [motor_idle h]
      exact hempty
  | sender =>
    obtain ⟨timers, targetAddr, os, -, heq⟩ := sender_eq cfg s
    simp only [heq]
    exact hempty
  | arduino =>
    by_cases h : s.commands cfg
    · simp only [arduino_due h]
      exact hempty
    · obtain ⟨timers, heq⟩ := arduino_idle input h
      simp only [heq]
      exact hempty
  | shutdown => exact hempty
  | exited => exact hempty

end

namespace World

variable [Field K] [LinearOrder K] [FloorRing K] [Libm K]

/-- Every run of the receiver is a poll. -/
theorem length_polls (w : World K) (es : List (Event K)) :
    (polls (w.history es)).length = (w.runs .receiver es).length := by
  induction es using List.reverseRecOn with
  | nil =>
    have hstart : polls (w.history []) = [] := by
      rw [World.history, Machine.trace_nil, List.append_nil]
      exact polls_of_origin fun o ho => by simp [World.origin_of_mem_startup ho]
    rw [hstart]
    rfl
  | append_singleton es e ih =>
    rw [World.history_snoc, polls_append, List.length_append, ih, runs_snoc, List.length_append]
    congr 1
    cases e with
    | step input =>
      have hpolls : polls (process w.config (w.after es) (.step input)).2 = _ :=
        polls_runs w.config input (w.after es)
      rw [hpolls, runAt]
      split <;> rfl
    | arrive d => rfl
    | signal => rfl
    | observe obs => rfl

/-- Without arrivals an empty queue stays empty, and the polls find nothing. -/
theorem polls_silent (w : World K) {pre post : List (Event K)}
    (hqueue : (w.after pre).udp.queue = []) (hsilent : ∀ d, .arrive d ∉ post) :
    (w.after (pre ++ post)).udp.queue = [] ∧
      ∃ recent, polls (w.history (pre ++ post)) = polls (w.history pre) ++ recent ∧
        ∀ msg ∈ recent, msg = TIMEOUT := by
  induction post using List.reverseRecOn with
  | nil =>
    rw [List.append_nil]
    exact ⟨hqueue, [], by simp, by simp⟩
  | append_singleton post e ih =>
    obtain ⟨hempty, recent, hpolls, hrecent⟩ :=
      ih fun d hd => hsilent d (List.mem_append_left _ hd)
    rw [← List.append_assoc, World.after_snoc, World.history_snoc, polls_append, hpolls]
    cases e with
    | step input =>
      refine ⟨queue_next input hempty, ?_⟩
      have hnext : polls (process w.config (w.after (pre ++ post)) (.step input)).2 = _ :=
        polls_runs w.config input (w.after (pre ++ post))
      rw [hnext, (Udp.receive_empty _ hempty).1]
      split
      · refine ⟨recent ++ [TIMEOUT], List.append_assoc _ _ _, ?_⟩
        rw [List.forall_mem_append]
        exact ⟨hrecent, List.forall_mem_singleton.mpr rfl⟩
      · exact ⟨recent, List.append_nil _, hrecent⟩
    | arrive d => exact absurd (List.mem_append_right _ (List.mem_singleton_self _)) (hsilent d)
    | signal => exact ⟨hempty, recent, List.append_nil _, hrecent⟩
    | observe obs => exact ⟨hempty, recent, List.append_nil _, hrecent⟩

/-- As many polls have found nothing as the receiver has run. -/
theorem velocityMap_of_silent (w : World K) {pre post : List (Event K)}
    (hqueue : (w.after pre).udp.queue = []) (hsilent : ∀ d, .arrive d ∉ post)
    (hlong : (w.runs .receiver pre).length + 3 ≤ (w.runs .receiver (pre ++ post)).length) :
    (w.after (pre ++ post)).velocityMap = zeroMap := by
  obtain ⟨-, recent, hpolls, hrecent⟩ := w.polls_silent hqueue hsilent
  have hlength : 3 ≤ recent.length := by
    rw [← length_polls, ← length_polls, hpolls, List.length_append] at hlong
    exact Nat.le_of_add_le_add_left hlong
  have hsplit : polls (w.history (pre ++ post)) =
      (polls (w.history pre) ++ recent.take (recent.length - 3)) ++
        recent.drop (recent.length - 3) := by
    rw [hpolls, List.append_assoc, List.take_append_drop]
  have htimeout : ∀ msg ∈ recent.drop (recent.length - 3), msg = TIMEOUT :=
    fun msg hmsg => hrecent msg (List.mem_of_mem_drop hmsg)
  have hless : ∀ msg ∈ recent.drop (recent.length - 3), Commandless K msg := by
    intro msg hmsg
    rw [htimeout msg hmsg]
    exact ⟨TIMEOUT_ne_STOP, by rintro ⟨⟩⟩
  have hthree : (recent.drop (recent.length - 3)).length = 3 := by
    rw [List.length_drop]
    omega
  rw [World.velocityMap_of_commandless hsplit hthree hless, if_pos htimeout]

/-- **A silent link stops the wheels in time.** Once the queue is empty at the head of the loop and
nothing arrives any more, every motor cycle later than three intervals of the receiver and two gaps
behind the next turn tells every motor to stand still. -/
theorem silence_stops (w : World K) {pre post : List (Event K)}
    (hhead : (w.after pre).pc = .head) (hqueue : (w.after pre).udp.queue = [])
    (hsilent : ∀ d, .arrive d ∉ post) {gap t : Int} {ts : List Int}
    (hturns : w.turns (pre ++ post) = w.turns pre ++ t :: ts) (hgap : 0 ≤ gap)
    (hclock : (w.turns (pre ++ post)).IsChain fun a b => a ≤ b ∧ b ≤ a + gap)
    (hinterval : 0 ≤ Block.receiver.nanos w.config) (input : Input K)
    (hruns : (w.after (pre ++ post)).runs w.config .motor)
    (hlong : t + (3 * Block.receiver.nanos w.config + 2 * gap) <
      (w.after (pre ++ post)).currentTime) :
    frames (process w.config (w.after (pre ++ post)) (.step input)).2 =
      w.config.controllers.toList.map fun p =>
        (p.1, p.2.makePosition { position := .nan, velocity := (0 : K) }) := by
  obtain ⟨hpc, hdue⟩ := hruns
  have hmotor : (w.after (pre ++ post)).pc = .motor := hpc
  -- All turns have got to the receiver, and the last one to the motors.
  have hbefore : w.turns pre = w.visits .receiver pre := by
    rcases w.turns_eq .receiver pre with ⟨hin, -⟩ | ⟨-, heq | ⟨hexited, -⟩⟩
    · rw [hhead] at hin
      exact absurd hin (by decide)
    · exact heq
    · rw [hhead] at hexited
      cases hexited
  have hvisits : w.turns (pre ++ post) = w.visits .receiver (pre ++ post) := by
    rcases w.turns_eq .receiver (pre ++ post) with ⟨hin, -⟩ | ⟨-, heq | ⟨hexited, -⟩⟩
    · rw [hmotor] at hin
      exact absurd hin (by decide)
    · exact heq
    · rw [hmotor] at hexited
      cases hexited
  have hlast : ts.getLast?.getD t = (w.after (pre ++ post)).currentTime := by
    rcases w.turns_eq .motor (pre ++ post) with ⟨-, heq⟩ | ⟨hout, -⟩
    · have hlast := congrArg List.getLast? heq
      rw [hturns, List.getLast?_concat, List.getLast?_append, List.getLast?_cons,
        Option.some_or] at hlast
      exact Option.some.inj hlast
    · rw [hmotor] at hout
      exact absurd (by decide) hout
  have hordered : (w.turns pre ++ t :: ts).IsChain (· ≤ ·) := by
    rw [← hturns]
    exact hclock.imp fun _ _ h => h.1
  have hgaps : (t :: ts).IsChain fun a b => b ≤ a + gap := by
    rw [hturns] at hclock
    exact hclock.right_of_append.imp fun _ _ h => h.2
  have hle : ∀ u ∈ w.turns pre ++ [t], u ≤ t := by
    intro u hu
    rcases List.mem_append.mp hu with hu | hu
    · exact (List.pairwise_append.mp hordered.pairwise).2.2 u hu t List.mem_cons_self
    · exact (List.mem_singleton.mp hu).le
  have hbegan : w.began (pre ++ post) ∈ w.turns pre ++ [t] := by
    unfold began
    rw [hturns]
    cases w.turns pre with
    | nil => exact List.mem_singleton_self t
    | cons u us => exact List.mem_cons_self
  have hsame : Periodic.runs (Block.receiver.nanos w.config) (w.began (pre ++ post)) (w.turns pre) =
      w.runs .receiver pre := by
    rw [runs_eq, ← hbefore]
    unfold began
    rw [hturns]
    cases w.turns pre with
    | nil => rfl
    | cons u us => rfl
  -- The last run up to the first silent turn is no later than that, and three more follow.
  have hthree : 2 < (Periodic.runs (Block.receiver.nanos w.config)
      (Periodic.lastRun (Block.receiver.nanos w.config) (w.began (pre ++ post)) (w.turns pre ++ [t]))
      ts).length := by
    apply Periodic.lt_length_runs hinterval hgap hgaps
      (Periodic.le_lastRun_add hinterval (w.turns pre) t)
    have hlastRun : Periodic.lastRun (Block.receiver.nanos w.config) (w.began (pre ++ post))
        (w.turns pre ++ [t]) ≤ t := Periodic.lastRun_le (hle _ hbegan) hle
    rw [hlast, two_nsmul]
    omega
  have hmap : (w.after (pre ++ post)).velocityMap = zeroMap := by
    apply w.velocityMap_of_silent hqueue hsilent
    rw [runs_eq w .receiver (pre ++ post), ← hvisits, hturns, ← hsame]
    have hsplit : w.turns pre ++ t :: ts = w.turns pre ++ [t] ++ ts := by
      rw [List.append_assoc, List.singleton_append]
    rw [hsplit, Periodic.runs_append _ _ _ ts, List.length_append,
      Periodic.runs_append _ _ _ [t], List.length_append]
    omega
  rw [frames_motor input hmotor hdue, Telemetry.commandFrames, hmap]
  apply List.map_congr_left
  intro p hp
  rw [zeroMap_getD]

end World

/-- The first turns on the bench, up to a motor cycle. -/
def silentTurns (K : Type) [Field K] : List (Event K) :=
  let step (now : Int) : Event K := .step { Input.bench K with now }
  List.replicate 6 (step 0) ++ List.replicate 6 (step 1) ++ List.replicate 6 (step 2) ++
    List.replicate 3 (step 3)

/-- On the bench every turn polls, so that the fourth motor cycle without a datagram is stopped by
the count, though the robot rotates before. -/
theorem World.silence_stops_bench :
    let pre := arrival "1 0 0 0.1 0 0 0" :: turn ℝ
    ¬ WheelsStopped (World.bench ℝ).config ((World.bench ℝ).after pre) ∧
    frames (process (World.bench ℝ).config ((World.bench ℝ).after (pre ++ silentTurns ℝ))
        (.step (.bench ℝ))).2 =
      (World.bench ℝ).config.controllers.toList.map fun p =>
        (p.1, p.2.makePosition { position := .nan, velocity := (0 : ℝ) }) := by
  intro pre
  have hpolls : polls ((World.bench ℝ).history pre) = [] ++ ["1 0 0 0.1 0 0 0".toList] := by
    decide +kernel
  have hmap := World.velocityMap_of_command hpolls command?_rotation
  have hturns : (World.bench ℝ).turns (pre ++ silentTurns ℝ) =
      (World.bench ℝ).turns pre ++ 0 :: [1, 2, 3] := by decide +kernel
  have hsilent : ∀ d, .arrive d ∉ silentTurns ℝ := by
    intro d hd
    simp [silentTurns, List.replicate] at hd
  have hclock : ((World.bench ℝ).turns (pre ++ silentTurns ℝ)).IsChain
      fun a b => a ≤ b ∧ b ≤ a + 1 := by
    decide +kernel
  have hruns :
      ((World.bench ℝ).after (pre ++ silentTurns ℝ)).runs (World.bench ℝ).config .motor := by
    decide +kernel
  refine ⟨rotation_turns hmap rfl rfl rfl, ?_⟩
  exact (World.bench ℝ).silence_stops (by decide +kernel) (by decide +kernel) hsilent hturns
    (by decide) hclock (Int.le_refl 0) _ hruns (by decide +kernel)

end RobotFramework.Main
