import Mathlib.Algebra.Field.Defs
import RobotFramework.Lib.Stream

/-!
# `Networks/decode.cpp`: the command decoder

`decodeCmd` runs seven extractions over the message and looks at the state of the stream after none
of them. What it leaves in the decoder after a malformed message is therefore decided by
`operator>>` alone (`Lib/Stream.lean`): the field whose conversion failed is overwritten, the fields
behind it keep what an earlier message, or nobody, put there.

A *well-formed* message is one whose words are exactly seven numerals of the types of the seven
fields, the two flags written `0` or `1`. On such a message the decoder's old contents do not matter
(`decodeCmd_wellFormed`).
-/

namespace RobotFramework

open Cxx

/-- `class cmdDecoder`: the fields of the last command. -/
structure CmdDecoder (K : Type) where
  id : Int
  velocityX : K
  velocityY : K
  velocityW : K
  kick : Bool
  dribble : Bool
  time : K
deriving DecidableEq

namespace CmdDecoder

variable {K : Type}

def clearKick (cmd : CmdDecoder K) : CmdDecoder K := { cmd with kick := false }

@[simp] theorem clearKick_kick (cmd : CmdDecoder K) : cmd.clearKick.kick = false := rfl

@[simp] theorem clearKick_dribble (cmd : CmdDecoder K) : cmd.clearKick.dribble = cmd.dribble := rfl

theorem clearKick_of_kick_eq_false {cmd : CmdDecoder K} (h : cmd.kick = false) :
    cmd.clearKick = cmd := by
  unfold clearKick
  rw [← h]

variable [RatCast K]

/-- `iss >> id >> velocity_x >> velocity_y >> velocity_w >> kick >> dribble >> time` -/
def decodeCmd (cmd : CmdDecoder K) (message : Text) : CmdDecoder K :=
  let (id, iss) := (IStream.ofText message).extract getInt cmd.id
  let (velocityX, iss) := iss.extract getDouble cmd.velocityX
  let (velocityY, iss) := iss.extract getDouble cmd.velocityY
  let (velocityW, iss) := iss.extract getDouble cmd.velocityW
  let (kick, iss) := iss.extract getBool cmd.kick
  let (dribble, iss) := iss.extract getBool cmd.dribble
  let (time, _) := iss.extract getDouble cmd.time
  { id, velocityX, velocityY, velocityW, kick, dribble, time }

/-- The old kick flag decides at most about the new one. -/
theorem decodeCmd_clearKick {c d : CmdDecoder K} (h : c.clearKick = d.clearKick) (message : Text) :
    (c.decodeCmd message).clearKick = (d.decodeCmd message).clearKick := by
  cases c with
  | mk id vx vy vw kick dribble time =>
    cases d with
    | mk id' vx' vy' vw' kick' dribble' time' =>
      simp only [clearKick, mk.injEq, true_and] at h
      obtain ⟨rfl, rfl, rfl, rfl, rfl, rfl⟩ := h
      simp only [decodeCmd, clearKick]
      rw [IStream.extract_snd getBool _ kick kick']

end CmdDecoder

/-! ## Well-formed commands -/

/-- A flag, written `0` or `1`. -/
def flag? (w : Text) : Option Bool :=
  if w = ['0'] then some false else if w = ['1'] then some true else none

theorem numeral?_of_flag? {w : Text} {b : Bool} (h : flag? w = some b) :
    numeral? getBool w = some b := by
  unfold flag? at h
  split at h
  · rename_i hw
    cases h
    rw [hw]
    decide
  · split at h
    · rename_i hw
      cases h
      rw [hw]
      decide
    · cases h

section

variable {K : Type} [RatCast K]

/-- The command a message spells: `id vx vy vw kick dribble time`, separated by white space. -/
def command? (message : Text) : Option (CmdDecoder K) :=
  match words message with
  | [id, vx, vy, vw, kick, dribble, time] => do
    return {
      id := ← numeral? getInt id
      velocityX := ← numeral? getDouble vx
      velocityY := ← numeral? getDouble vy
      velocityW := ← numeral? getDouble vw
      kick := ← flag? kick
      dribble := ← flag? dribble
      time := ← numeral? getDouble time }
  | _ => none

def WellFormed (K : Type) [RatCast K] (message : Text) : Prop :=
  (command? (K := K) message).isSome

instance (message : Text) : Decidable (WellFormed K message) :=
  inferInstanceAs (Decidable (_ = true))

def CmdDecoder.cast (K : Type) [RatCast K] (cmd : CmdDecoder ℚ) : CmdDecoder K :=
  { cmd with
      velocityX := cmd.velocityX
      velocityY := cmd.velocityY
      velocityW := cmd.velocityW
      time := cmd.time }

/-- What a message spells is a command of rational numbers. -/
theorem command?_cast (message : Text) :
    command? (K := K) message = (command? (K := ℚ) message).map (CmdDecoder.cast K) := by
  unfold command?
  split
  · rename_i id vx vy vw kick dribble time _
    simp only [numeral?_getDouble_cast (K := K)]
    cases numeral? getInt id <;> cases numeral? (getDouble (K := ℚ)) vx <;>
      cases numeral? (getDouble (K := ℚ)) vy <;> cases numeral? (getDouble (K := ℚ)) vw <;>
      cases flag? kick <;> cases flag? dribble <;> cases numeral? (getDouble (K := ℚ)) time <;> rfl
  · rfl

/-- The seven words behind a command, each spelling its field. -/
theorem words_of_command? {message : Text} {c : CmdDecoder K} (h : command? message = some c) :
    ∃ w₁ w₂ w₃ w₄ w₅ w₆ w₇, words message = [w₁, w₂, w₃, w₄, w₅, w₆, w₇] ∧
      numeral? getInt w₁ = some c.id ∧ numeral? getDouble w₂ = some c.velocityX ∧
      numeral? getDouble w₃ = some c.velocityY ∧ numeral? getDouble w₄ = some c.velocityW ∧
      flag? w₅ = some c.kick ∧ flag? w₆ = some c.dribble ∧
      numeral? getDouble w₇ = some c.time := by
  unfold command? at h
  split at h
  · rename_i w₁ w₂ w₃ w₄ w₅ w₆ w₇ hw
    simp only [bind, pure, Option.bind_eq_some_iff] at h
    obtain ⟨id, h₁, vx, h₂, vy, h₃, vw, h₄, kick, h₅, dribble, h₆, time, h₇, hc⟩ := h
    cases hc
    exact ⟨w₁, w₂, w₃, w₄, w₅, w₆, w₇, hw, h₁, h₂, h₃, h₄, h₅, h₆, h₇⟩
  · cases h

/-- **A well-formed command is decoded exactly**, whatever the decoder held before. -/
theorem CmdDecoder.decodeCmd_wellFormed {message : Text} {c : CmdDecoder K}
    (h : command? message = some c) (cmd : CmdDecoder K) : cmd.decodeCmd message = c := by
  obtain ⟨w₁, w₂, w₃, w₄, w₅, w₆, w₇, hw, h₁, h₂, h₃, h₄, h₅, h₆, h₇⟩ := words_of_command? h
  obtain ⟨r₁, e₁, hr₁⟩ := IStream.extract_word getInt_local (s := IStream.ofText message) rfl
    hw h₁ cmd.id
  obtain ⟨r₂, e₂, hr₂⟩ := IStream.extract_word getDouble_local (s := ⟨r₁, false⟩) rfl
    hr₁ h₂ cmd.velocityX
  obtain ⟨r₃, e₃, hr₃⟩ := IStream.extract_word getDouble_local (s := ⟨r₂, false⟩) rfl
    hr₂ h₃ cmd.velocityY
  obtain ⟨r₄, e₄, hr₄⟩ := IStream.extract_word getDouble_local (s := ⟨r₃, false⟩) rfl
    hr₃ h₄ cmd.velocityW
  obtain ⟨r₅, e₅, hr₅⟩ := IStream.extract_word getBool_local (s := ⟨r₄, false⟩) rfl
    hr₄ (numeral?_of_flag? h₅) cmd.kick
  obtain ⟨r₆, e₆, hr₆⟩ := IStream.extract_word getBool_local (s := ⟨r₅, false⟩) rfl
    hr₅ (numeral?_of_flag? h₆) cmd.dribble
  obtain ⟨r₇, e₇, -⟩ := IStream.extract_word getDouble_local (s := ⟨r₆, false⟩) rfl
    hr₆ h₇ cmd.time
  simp only [decodeCmd, e₁, e₂, e₃, e₄, e₅, e₆, e₇]

end

end RobotFramework
