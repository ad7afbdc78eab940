import RobotFramework.Lib.Reactive

/-!
# `Arduino/Arduino.ino`: the firmware

One turn of `loop()` takes at most one byte off the serial line. `K` fires the kicker unless the
last kick is too recent, `D` and `S` set the output of the dribbler's speed controller, which
**keeps its last value**: nothing in the firmware ever stops the dribbler by itself.
-/

namespace RobotFramework

open Reactive

namespace Firmware

def kickerActiveLevel : Bool := true
def kickerIdleLevel : Bool := !kickerActiveLevel
def dribblerPower : Int := 1600
def dribblerStopPin : Int := 1500
def kickerPulseTime : Nat := 10
def kickerTimeout : BitVec 32 := 5000

/-- The state of the board: its variables, the level of the kicker pin, the pulse width of the
dribbler in microseconds, and the bytes that wait at the serial line. -/
structure State where
  perviousTime : BitVec 32
  kickerOutputPin : Bool
  esc : Int
  serial : List Char
deriving DecidableEq

inductive Output where
  | print (tooFast : BitVec 32)
  | kicking
  | digitalWrite (level : Bool)
  | delay (ms : Nat)
  | writeMicroseconds (us : Int)
deriving DecidableEq

def setup : State :=
  { perviousTime := 0, kickerOutputPin := kickerIdleLevel, esc := dribblerStopPin, serial := [] }

/-- What `loop()` does with a byte; `millis` is what the clock says. -/
def onByte (s : State) (millis : BitVec 32) (incomingByte : Char) : State × List Output :=
  if incomingByte = 'K' then
    if millis - s.perviousTime < kickerTimeout then (s, [.print (millis - s.perviousTime)])
    else
      ({ s with kickerOutputPin := kickerIdleLevel, perviousTime := millis },
        [.kicking, .digitalWrite kickerActiveLevel, .delay kickerPulseTime,
          .digitalWrite kickerIdleLevel])
  else if incomingByte = 'D' then
    ({ s with esc := dribblerPower }, [.writeMicroseconds dribblerPower])
  else if incomingByte = 'S' then
    ({ s with esc := dribblerStopPin }, [.writeMicroseconds dribblerStopPin])
  else (s, [])

def loop : Machine State (BitVec 32) Output := fun s millis =>
  match s.serial with
  | [] => (s, [])
  | incomingByte :: serial => onByte { s with serial } millis incomingByte

def deliver (s : State) (bytes : List Char) : State := { s with serial := s.serial ++ bytes }

/-! ## The dribbler remembers the last of `D` and `S` -/

/-- The pulse width a byte asks for. -/
def escOf (esc : Int) (byte : Char) : Int :=
  if byte = 'D' then dribblerPower else if byte = 'S' then dribblerStopPin else esc

def isDribble (byte : Char) : Bool := byte = 'D' || byte = 'S'

theorem escOf_of_not_isDribble (esc : Int) {byte : Char} (h : ¬ isDribble byte = true) :
    escOf esc byte = esc := by
  simp only [isDribble, Bool.or_eq_true, decide_eq_true_eq, not_or] at h
  unfold escOf
  rw [if_neg h.1, if_neg h.2]

theorem escOf_of_isDribble (esc : Int) {byte : Char} (h : isDribble byte = true) :
    escOf esc byte = if byte = 'D' then dribblerPower else dribblerStopPin := by
  simp only [isDribble, Bool.or_eq_true, decide_eq_true_eq] at h
  unfold escOf
  rcases h with rfl | rfl <;> rfl

/-- **Only the last of the dribbler's bytes counts.** -/
theorem foldl_escOf (bytes : List Char) (esc : Int) :
    bytes.foldl escOf esc =
      match (bytes.filter isDribble).getLast? with
      | some byte => if byte = 'D' then dribblerPower else dribblerStopPin
      | none => esc := by
  induction bytes using List.reverseRecOn with
  | nil => rfl
  | append_singleton bytes byte ih =>
    rw [List.foldl_append, List.foldl_cons, List.foldl_nil, List.filter_append]
    by_cases h : isDribble byte = true
    · rw [List.filter_cons_of_pos h, escOf_of_isDribble _ h]
      simp
    · rw [List.filter_cons_of_neg h, escOf_of_not_isDribble _ h]
      simpa using ih

/-- The pulse width once the waiting bytes have been read. -/
def settled (s : State) : Int := s.serial.foldl escOf s.esc

theorem onByte_serial (s : State) (millis : BitVec 32) (byte : Char) :
    (onByte s millis byte).1.serial = s.serial := by
  unfold onByte
  split_ifs <;> rfl

theorem onByte_esc (s : State) (millis : BitVec 32) (byte : Char) :
    (onByte s millis byte).1.esc = escOf s.esc byte := by
  unfold onByte escOf
  by_cases hK : byte = 'K'
  · subst hK
    split_ifs <;> first | rfl | simp_all
  · rw [if_neg hK]
    split_ifs <;> rfl

/-- Reading a byte does not change what the waiting bytes come to. -/
theorem settled_loop (s : State) (millis : BitVec 32) : settled (loop s millis).1 = settled s := by
  unfold loop settled
  cases hs : s.serial with
  | nil => simp [hs]
  | cons byte serial =>
    simp only [onByte_serial, onByte_esc, List.foldl_cons]

theorem settled_deliver (s : State) (bytes : List Char) :
    settled (deliver s bytes) = bytes.foldl escOf (settled s) := by
  unfold settled deliver
  rw [List.foldl_append]

theorem esc_eq_settled {s : State} (h : s.serial = []) : s.esc = settled s := by
  unfold settled
  rw [h]
  rfl

end Firmware

end RobotFramework
