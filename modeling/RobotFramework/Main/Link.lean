import RobotFramework.Lib.Watchdog
import RobotFramework.Main.Startup
import RobotFramework.Main.Steps

/-!
# The link: what the remote side controls

Three variables of `main` carry what the remote side asked for from the receiver to the motors and
the Arduino: the decoder, the velocity map and the timeout counter. Two blocks of the loop write
them, at different rates, and everything else leaves them alone. So they are **a function of the
history** (`link_run`): of the texts the polls returned and the kicks the Arduino block issued, in
their order.

Without the kicks they are simpler still. The decoder holds what the texts left in it (`held`), but
for its kick flag, and the velocity map with its counter is a watchdog over the stream of decoded
commands (`velocityMap_eq_expected`).
-/

namespace RobotFramework.Main

open Cxx Moteus Reactive

variable {K : Type}

/-! ## Histories -/

def Effect.poll? : Effect K → Option Text
  | .recv msg => some msg
  | _ => none

/-- The effect neither is a poll nor tells of the Arduino. -/
def Effect.Inert (o : Effect K) : Prop := o.origin ≠ some .receiver ∧ o.origin ≠ some .arduino

theorem Effect.inert_of_origin {o : Effect K} {pc : Pc}
    (h : o.origin = none ∨ o.origin = some pc) (hr : pc ≠ .receiver) (ha : pc ≠ .arduino) :
    o.Inert := by
  rcases h with h | h
  · exact ⟨by simp [h], by simp [h]⟩
  · exact ⟨by simpa [h] using hr, by simpa [h] using ha⟩

theorem Effect.inert_of_origin_none {o : Effect K} (h : o.origin = none) : o.Inert :=
  ⟨by simp [h], by simp [h]⟩

/-- A fold that ignores such effects does not see a list of them. -/
theorem foldl_of_inert {α : Type*} {f : α → Effect K → α} (hf : ∀ a o, o.Inert → f a o = a)
    {os : List (Effect K)} (h : ∀ o ∈ os, o.Inert) (a : α) : os.foldl f a = a := by
  induction os with
  | nil => rfl
  | cons o os ih =>
    rw [List.foldl_cons, hf a o (h o List.mem_cons_self),
      ih fun o ho => h o (List.mem_cons_of_mem _ ho)]

def polls (h : List (Effect K)) : List Text := h.filterMap Effect.poll?

@[simp] theorem polls_nil : polls ([] : List (Effect K)) = [] := rfl

@[simp] theorem polls_append (h k : List (Effect K)) : polls (h ++ k) = polls h ++ polls k :=
  List.filterMap_append

@[simp] theorem polls_recv (msg : Text) (h : List (Effect K)) :
    polls (.recv msg :: h) = msg :: polls h := rfl

theorem polls_of_origin {os : List (Effect K)} (h : ∀ o ∈ os, o.origin ≠ some .receiver) :
    polls os = [] := by
  refine List.filterMap_eq_nil_iff.mpr fun o ho => ?_
  cases o with
  | recv msg => exact absurd rfl (h _ ho)
  | _ => rfl

/-! ## The link -/

/-- The variables through which the remote side acts. -/
structure Link (K : Type) where
  cmd : CmdDecoder K
  velocityMap : Std.TreeMap Int K
  timeoutCount : BitVec 32

def State.link (s : State K) : Link K := ⟨s.cmd, s.velocityMap, s.timeoutCount⟩

@[simp] theorem State.link_stamp (s : State K) (set : Timers → Int → Timers) :
    (s.stamp set).link = s.link := rfl

namespace Link

variable [Field K] [LinearOrder K] [Libm K]

def poll (wheel : WheelMath K) (l : Link K) (msg : Text) : Link K :=
  if msg = TIMEOUT then
    { l with
        timeoutCount := l.timeoutCount + 1
        velocityMap :=
          if TIMEOUT_LIMIT ≤ (l.timeoutCount + 1).toInt then zeroMap else l.velocityMap }
  else if msg = STOP then { l with velocityMap := zeroMap }
  else
    let cmd := l.cmd.decodeCmd msg
    { cmd
      velocityMap := velocityMapOf (wheel.calculate cmd.velocityX cmd.velocityY cmd.velocityW)
      timeoutCount := 0 }

def observe (wheel : WheelMath K) (l : Link K) : Effect K → Link K
  | .recv msg => l.poll wheel msg
  | .command byte _ => if byte = 'K' then { l with cmd := l.cmd.clearKick } else l
  | _ => l

theorem observe_inert (wheel : WheelMath K) (l : Link K) (o : Effect K) (h : o.Inert) :
    l.observe wheel o = l := by
  cases o with
  | recv msg => exact absurd rfl h.1
  | command byte ok => exact absurd rfl h.2
  | _ => rfl

theorem foldl_observe_inert {wheel : WheelMath K} {os : List (Effect K)}
    (h : ∀ o ∈ os, o.Inert) (l : Link K) : os.foldl (observe wheel) l = l :=
  foldl_of_inert (observe_inert wheel) h l

end Link

/-! ## Every step updates the link as its effects say -/

section

variable [Field K] [LinearOrder K] [Libm K]

theorem receiver_link (cfg : Config K) (input : Input K) (s : State K) :
    (receiver cfg input s).1.link =
      (receiver cfg input s).2.foldl (Link.observe cfg.wheel) s.link := by
  by_cases hdue : s.receives cfg
  · by_cases ht : s.udp.receive.2 = TIMEOUT
    · rw [receiver_timeout hdue ht, List.foldl_cons, Link.foldl_observe_inert fun o ho =>
        Effect.inert_of_origin_none (origin_of_mem_onTimeout ho)]
      simp only [State.link_stamp, onTimeout, Link.observe, Link.poll, if_true]
      -- Both sides ask whether the same counter has reached the limit.
      split_ifs with h₁ h₂ h₂
      · rfl
      · exact absurd h₁ h₂
      · exact absurd h₂ h₁
      · rfl
    · by_cases hs : s.udp.receive.2 = STOP
      · rw [receiver_stop hdue hs, List.foldl_cons, Link.foldl_observe_inert fun o ho =>
          Effect.inert_of_origin_none (origin_of_mem_onStop ho)]
        simp only [State.link_stamp, Link.observe, Link.poll, if_neg TIMEOUT_ne_STOP.symm, if_true]
        rfl
      · rw [receiver_command hdue ht hs, List.foldl_cons]
        simp only [State.link_stamp, Link.observe, Link.poll, if_neg ht, if_neg hs]
        rfl
  · rw [receiver_idle hdue]
    rfl

/-- The Arduino block takes the kick flag back once it has issued the kick. -/
theorem arduino_link (cfg : Config K) (input : Input K) (s : State K) :
    (arduino cfg input s).1.link =
      (arduino cfg input s).2.foldl (Link.observe cfg.wheel) s.link := by
  by_cases h : s.commands cfg
  · have hserial : (if input.write.writes then [Effect.serial s.arduinoByte] else []).foldl
        (Link.observe cfg.wheel) s.link = s.link := by
      split <;> rfl
    rw [arduino_due h, List.foldl_append, hserial]
    simp only [List.foldl_cons, List.foldl_nil, Link.observe, State.arduinoLog, logSub,
      State.arduinoByte]
    by_cases hk : s.cmd.kick = true
    · rw [if_pos hk, if_pos rfl]
      rfl
    · -- Neither `D` nor `S` tells anything about the link.
      have hcmd := CmdDecoder.clearKick_of_kick_eq_false (Bool.eq_false_iff.mpr hk)
      have hne : (if s.cmd.dribble then 'D' else 'S') ≠ 'K' := by split <;> decide
      rw [if_neg hk, if_neg hne, hcmd]
      rfl
  · obtain ⟨timers, heq⟩ := arduino_idle input h
    rw [heq]
    rfl

variable [FloorRing K]

theorem next_link (cfg : Config K) (input : Input K) {s : State K} (hr : s.pc ≠ .receiver)
    (ha : s.pc ≠ .arduino) : (next cfg input s).1.link = s.link := by
  unfold next
  cases hpc : s.pc with
  | head =>
    simp only [head]
    split <;> rfl
  | receiver => exact absurd hpc hr
  | camera =>
    obtain ⟨timers, senderMsg, os, -, heq⟩ := camera_eq cfg s
    simp only [heq]
    rfl
  | motor =>
    by_cases h : s.cycles cfg
    · simp only [motor_due h]
      rfl
    · simp only [motor_idle h]
      rfl
  | sender =>
    obtain ⟨timers, targetAddr, os, -, heq⟩ := sender_eq cfg s
    simp only [heq]
    rfl
  | arduino => exact absurd hpc ha
  | shutdown => rfl
  | exited => rfl

/-- **Every event updates the link by its effects alone.** -/
theorem process_link (cfg : Config K) (s : State K) (e : Event K) :
    (process cfg s e).1.link = (process cfg s e).2.foldl (Link.observe cfg.wheel) s.link := by
  cases e with
  | step input =>
    show (next cfg input s).1.link = (next cfg input s).2.foldl _ _
    by_cases hr : s.pc = .receiver
    · simp only [next, hr]
      exact receiver_link cfg input s
    · by_cases ha : s.pc = .arduino
      · simp only [next, ha]
        exact arduino_link cfg input s
      · rw [next_link cfg input hr ha, Link.foldl_observe_inert fun o ho =>
          Effect.inert_of_origin (origin_of_mem_next ho) hr ha]
  | arrive d => rfl
  | signal => rfl
  | observe obs => rfl

theorem link_run (cfg : Config K) (s : State K) (es : List (Event K)) :
    ((process cfg).after s es).link =
      ((process cfg).trace s es).foldl (Link.observe cfg.wheel) s.link :=
  Machine.view_after (process_link cfg) s es

omit [LinearOrder K] [FloorRing K] in
/-- Before the loop nothing is polled, nothing commanded and no velocity sent. -/
theorem World.origin_of_mem_startup {w : World K} {o : Effect K} (ho : o ∈ w.startup) :
    o.origin = none := by
  rcases World.log_or_stop_of_mem_startup ho with ⟨call, rfl, -⟩ | ho
  · rfl
  · exact origin_of_mem_setStop ho

/-- A fold that ignores inert effects starts with the loop. -/
theorem World.foldl_history {α : Type*} {f : α → Effect K → α} (hf : ∀ a o, o.Inert → f a o = a)
    (w : World K) (es : List (Event K)) (a : α) :
    (w.history es).foldl f a = ((process w.config).trace w.start es).foldl f a := by
  unfold World.history
  rw [List.foldl_append, foldl_of_inert hf fun o ho =>
    Effect.inert_of_origin_none (World.origin_of_mem_startup ho)]

theorem World.polls_history (w : World K) (es : List (Event K)) :
    polls (w.history es) = polls ((process w.config).trace w.start es) := by
  unfold World.history
  rw [polls_append, polls_of_origin fun o ho => by simp [World.origin_of_mem_startup ho],
    List.nil_append]

end

end RobotFramework.Main
