import Mathlib.Data.List.Induction
import Std.Data.TreeMap.Lemmas
import RobotFramework.Moteus.Controller

/-!
# `Telemetry/Telemetry.cpp`: one cycle on the motor bus

`cycle` sends every controller its velocity from `velocity_map`, zero if the map has no entry, and
collects the replies in a map keyed by the source that answered; of several replies from one source
the last one stays. What the bus answers is a parameter (`MotorBus`).
-/

namespace RobotFramework

open Cxx Moteus

structure MotorTelemetry (K : Type) where
  temperature : Double K
  voltage : Double K
  velocity : Double K
  current : Double K
  mode : Int

/-- `controllers`, keyed by CAN ID. -/
abbrev Controllers := Std.TreeMap Int Controller

/-- What the bus makes of the frames of one cycle: the replies that come back. -/
abbrev MotorBus (K : Type) := List (CanFdFrame K) → List (ReplyFrame K)

/-- Whatever a map built by insertions holds was inserted. -/
theorem mem_toList_foldl_insert {α β : Type} {key : α → Int} {value : α → β} {l : List α} {k : Int}
    {v : β}
    (h : (k, v) ∈ (l.foldl (fun m a => m.insert (key a) (value a))
      (∅ : Std.TreeMap Int β)).toList) :
    ∃ a ∈ l, key a = k ∧ value a = v := by
  rw [Std.TreeMap.mem_toList_iff_getElem?_eq_some] at h
  induction l using List.reverseRecOn with
  | nil => simp at h
  | append_singleton l a ih =>
    rw [List.foldl_append, List.foldl_cons, List.foldl_nil, Std.TreeMap.getElem?_insert] at h
    split at h
    · rename_i hkey
      exact ⟨a, List.mem_append_right _ (List.mem_singleton_self _),
        Std.LawfulEqCmp.eq_of_compare hkey, Option.some.inj h⟩
    · obtain ⟨b, hb, hkey, hvalue⟩ := ih h
      exact ⟨b, List.mem_append_left _ hb, hkey, hvalue⟩

/-- With distinct keys all of it is there. -/
theorem mem_toList_foldl_insert_iff {α β : Type} {key : α → Int} {value : α → β} {l : List α}
    (hl : (l.map key).Nodup) {k : Int} {v : β} :
    (k, v) ∈ (l.foldl (fun m a => m.insert (key a) (value a)) (∅ : Std.TreeMap Int β)).toList ↔
      ∃ a ∈ l, key a = k ∧ value a = v := by
  refine ⟨mem_toList_foldl_insert, ?_⟩
  rintro ⟨a, ha, rfl, rfl⟩
  rw [Std.TreeMap.mem_toList_iff_getElem?_eq_some]
  induction l using List.reverseRecOn with
  | nil => cases ha
  | append_singleton l b ih =>
    rw [List.map_append, List.map_singleton, List.nodup_append] at hl
    obtain ⟨hnodup, -, hdisjoint⟩ := hl
    rw [List.foldl_append, List.foldl_cons, List.foldl_nil, Std.TreeMap.getElem?_insert]
    rcases List.mem_append.mp ha with ha | ha
    · have hne : key a ≠ key b :=
        hdisjoint _ (List.mem_map_of_mem ha) _ (List.mem_singleton_self _)
      rw [if_neg fun hc => hne (Std.LawfulEqCmp.compare_eq_iff_eq.mp hc).symm]
      exact ih hnodup ha
    · rw [List.mem_singleton.mp ha, if_pos (Std.LawfulEqCmp.compare_eq_iff_eq.mpr rfl)]

namespace Telemetry

/-- `YAML_Load_MotorMap`: the entries of `motorMap` in file order, or the fallback when the file
cannot be loaded. -/
def yamlLoadMotorMap (config : Option (List (Int × Int))) : Std.TreeMap Int Int :=
  match config with
  | some entries => entries.foldl (fun motorMap e => motorMap.insert e.1 e.2) ∅
  | none => .ofList [((1 : Int), (1 : Int)), (2, 2), (3, 3), (4, 4)]

/-- `Telemetry::Telemetry`: one controller for each entry of the motor map. -/
def controllers (servoMap : Std.TreeMap Int Int) : Controllers :=
  servoMap.toList.foldl (fun cs p => cs.insert p.1 (Controller.new { id := p.1, bus := p.2 })) ∅

/-- Every controller is built for its ID and a bus, and with nothing else than the defaults. -/
theorem controllers_mem {servoMap : Std.TreeMap Int Int} {id : Int} {c : Controller}
    (h : (id, c) ∈ (controllers servoMap).toList) : ∃ bus, c = Controller.new { id, bus } := by
  obtain ⟨p, -, rfl, rfl⟩ := mem_toList_foldl_insert h
  exact ⟨p.2, rfl⟩

variable {K : Type}

/-- The frames of one cycle, one for each controller, under the controller's ID. -/
def commandFrames [Zero K] (controllers : Controllers) (velocityMap : Std.TreeMap Int K) :
    List (Int × CanFdFrame K) :=
  controllers.toList.map fun p =>
    (p.1, p.2.makePosition { position := .nan, velocity := velocityMap[p.1]?.getD 0 })

def stopFrames (controllers : Controllers) : List (Int × CanFdFrame K) :=
  controllers.toList.map fun p => (p.1, p.2.makeStop)

variable [Field K] [LinearOrder K] [FloorRing K] [Libm K]

def parseReply (frame : ReplyFrame K) : MotorTelemetry K :=
  let parsed := Query.parse frame.items
  { temperature := parsed.temperature
    voltage := parsed.voltage
    velocity := parsed.velocity
    current := parsed.qCurrent
    mode := parsed.mode }

@[simp] theorem parseReply_current (frame : ReplyFrame K) :
    (parseReply frame).current = (Query.parse frame.items).qCurrent := rfl

/-- The replies of a cycle, keyed by responding CAN ID. -/
def servoData (replies : List (ReplyFrame K)) : Std.TreeMap Int (MotorTelemetry K) :=
  replies.foldl (fun m frame => m.insert frame.source (parseReply frame)) ∅

def cycle (controllers : Controllers) (velocityMap : Std.TreeMap Int K) (bus : MotorBus K) :
    List (Int × CanFdFrame K) × Std.TreeMap Int (MotorTelemetry K) :=
  let commandFrames := commandFrames controllers velocityMap
  let replies := if commandFrames.isEmpty then [] else bus (commandFrames.map (·.2))
  (commandFrames, servoData replies)

/-- Whatever the map of a cycle holds was parsed from one of its replies. -/
theorem servoData_mem {replies : List (ReplyFrame K)} {id : Int} {r : MotorTelemetry K}
    (h : (id, r) ∈ (servoData replies).toList) :
    ∃ frame ∈ replies, frame.source = id ∧ parseReply frame = r :=
  mem_toList_foldl_insert h

end Telemetry

end RobotFramework
