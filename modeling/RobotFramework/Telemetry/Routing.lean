import Mathlib.Data.List.Sort
import RobotFramework.Pi3Hat.Send
import RobotFramework.Telemetry.Wire

/-!
# `mjbots/pi3hat/pi3hat_moteus_transport.h`: from a cycle to the buses

`CHILD_Cycle` makes CAN frames of the frames it is given. The bus of a frame is the one the frame
names, unless that is 0 or 1, which cannot be told from a default: then the map of the transport is
asked for the bus of the destination (`CHILD_FindBus`). Controllers and transport have been built
from one motor map, so that both ways lead to the same bus, and on every bus there are the commands
of the motors that the map has there (`received_cycle`). With the devices on their buses a cycle
reports each motor that is where the map has it (`cycleRaw_hat`).
-/

namespace RobotFramework

open Cxx Moteus Pi3Hat

namespace Telemetry

/-! ## `CHILD_Cycle` -/

/-- `CHILD_FindBus` -/
def findBus (servoMap : Std.TreeMap Int Int) (id suppliedBus : Int) : Int :=
  if 1 < suppliedBus then suppliedBus else servoMap[id]?.getD 1

/-- One CAN frame of `CHILD_Cycle`. -/
def canFrame (servoMap : Std.TreeMap Int Int) (frame : RawFrame) : CanFrame :=
  { id := frame.arbitrationId
    data := frame.data
    bus := findBus servoMap frame.destination frame.bus
    expectReply := frame.replyRequired
    expectedReplySize := frame.expectedReplySize }

/-- The reply that `CHILD_Cycle` makes of a CAN frame. -/
def canReply (id : BitVec 32) (data : List UInt8) : RawReply :=
  { source := (id.toNat / 2 ^ 8 % 128 : Nat), data }

/-! ## The frames of a cycle -/

variable {K : Type} [Field K] [LinearOrder K] [FloorRing K] [Libm K]

/-- A motor map of the board: ids as CAN has them, and buses that are there. -/
def OnBoard (enableAux : Bool) (servoMap : Std.TreeMap Int Int) : Prop :=
  ∀ id bus : Int, servoMap[id]? = some bus → (0 ≤ id ∧ id < 128) ∧ Usable enableAux bus

/-- The frame with a command for one motor. -/
def motorFrame (id bus : Int) (command : ModeCommand K) : RawFrame :=
  Controller.encodeFrame 22 ((Controller.new { id, bus }).makeFrame command)

/-- The frame of one motor in a cycle. -/
def cycleFrame (velocityMap : Std.TreeMap Int K) (id bus : Int) : RawFrame :=
  motorFrame id bus (.position { position := .nan, velocity := velocityMap[id]?.getD 0 })

theorem toInt8_of_bounds {n : Int} (h : 0 ≤ n ∧ n < 128) : toInt8 n = n :=
  Int.bmod_eq_of_le (by omega) (by omega)

/-- The bus of the map, whichever way it is found. -/
theorem canFrame_bus {enableAux : Bool} {servoMap : Std.TreeMap Int Int}
    (hmap : OnBoard enableAux servoMap) {id bus : Int} (hbus : servoMap[id]? = some bus)
    (command : ModeCommand K) : (canFrame servoMap (motorFrame id bus command)).bus = bus := by
  obtain ⟨hid, husable⟩ := hmap id bus hbus
  have hrange := husable.bounds
  show findBus servoMap (toInt8 id) (toInt8 bus) = bus
  rw [findBus, toInt8_of_bounds hid, toInt8_of_bounds (by omega), hbus, Option.getD_some, ite_self]

theorem arbitrationId_bytes : ∀ n < 128,
    BitVec.ofInt 32 (toInt8 (n : Nat)) ||| BitVec.ofInt 32 (0 * 256) ||| 0x8000 |||
      (0 : BitVec 32) <<< 16 = BitVec.ofNat 32 (2 ^ 15 + n) := by
  decide

/-- The id of a frame: the reply bit and the motor. -/
theorem canFrame_id (servoMap : Std.TreeMap Int Int) {id : Int} (hid : 0 ≤ id ∧ id < 128)
    (bus : Int) (command : ModeCommand K) :
    (canFrame servoMap (motorFrame id bus command)).id = BitVec.ofNat 32 (2 ^ 15 + id.toNat) := by
  obtain ⟨n, rfl⟩ := Int.eq_ofNat_of_zero_le hid.1
  exact arbitrationId_bytes n (by omega)

/-- The controllers, in the order of the map they were built from. -/
theorem toList_controllers (servoMap : Std.TreeMap Int Int) :
    (controllers servoMap).toList =
      servoMap.toList.map fun p => (p.1, Controller.new { id := p.1, bus := p.2 }) := by
  let lt : Int × Controller → Int × Controller → Prop := fun a b => compare a.1 b.1 = .lt
  have : Std.Irrefl lt := ⟨fun a h => by simp [lt] at h⟩
  have : Std.Antisymm lt := ⟨fun a b h h' => absurd
    (Int.lt_trans (Int.compare_eq_lt.mp h) (Int.compare_eq_lt.mp h')) (Int.lt_irrefl _)⟩
  refine List.Pairwise.eq_of_mem_iff (r := lt) Std.TreeMap.ordered_keys_toList ?_ ?_
  · exact List.pairwise_map.mpr Std.TreeMap.ordered_keys_toList
  · rintro ⟨id, c⟩
    rw [mem_controllers_iff, List.mem_map]
    constructor
    · rintro ⟨bus, hbus, rfl⟩
      exact ⟨(id, bus), Std.TreeMap.mem_toList_iff_getElem?_eq_some.mpr hbus, rfl⟩
    · rintro ⟨p, hp, heq⟩
      obtain ⟨rfl, rfl⟩ := Prod.mk.inj heq
      exact ⟨p.2, Std.TreeMap.mem_toList_iff_getElem?_eq_some.mp hp, rfl⟩

/-- The frames of a cycle, by the map. -/
theorem commandFrames_servoMap (servoMap : Std.TreeMap Int Int) (velocityMap : Std.TreeMap Int K) :
    (commandFrames (controllers servoMap) velocityMap).map
        (fun p => Controller.encodeFrame 22 p.2) =
      servoMap.toList.map fun p => cycleFrame velocityMap p.1 p.2 := by
  rw [commandFrames, toList_controllers, List.map_map, List.map_map]
  rfl

/-- What is on a bus after frames for motors of the map were sent. -/
theorem received_motorFrames {enableAux : Bool} {servoMap : Std.TreeMap Int Int}
    (hmap : OnBoard enableAux servoMap) {α : Type} {l : List α} {id onBus : α → Int}
    {command : α → ModeCommand K} (hl : ∀ a ∈ l, servoMap[id a]? = some (onBus a)) {bus : Int}
    (hbus : bus ∈ busOrder) :
    received bus (sendCan enableAux
        ((l.map fun a => motorFrame (id a) (onBus a) (command a)).map (canFrame servoMap))) =
      (l.filter (onBus · = bus)).map fun a =>
        (BitVec.ofNat 32 (2 ^ 15 + (id a).toNat),
          (canFrame servoMap (motorFrame (id a) (onBus a) (command a))).padded) := by
  have hempty : bus = 5 ∧ enableAux = false → l.filter (onBus · = bus) = [] := by
    intro hfive
    apply List.filter_eq_nil_iff.mpr
    intro a ha hsame
    have husable := (hmap (id a) (onBus a) (hl a ha)).2
    rw [decide_eq_true_eq] at hsame
    rw [hsame] at husable
    exact husable.2 hfive
  rw [received_sendCan _ _ hbus]
  split
  · rename_i hfive
    rw [hempty hfive, List.map_nil]
  rw [List.map_map, List.filter_map, List.map_map]
  have hfilter : l.filter ((fun frame : CanFrame => decide (frame.bus = bus)) ∘
      canFrame servoMap ∘ fun a => motorFrame (id a) (onBus a) (command a)) =
      l.filter (onBus · = bus) := by
    apply List.filter_congr
    intro a ha
    simp only [Function.comp_apply, canFrame_bus hmap (hl a ha)]
  rw [hfilter]
  apply List.map_congr_left
  intro a ha
  have hid := (hmap (id a) (onBus a) (hl a (List.mem_filter.mp ha).1)).1
  simp only [Function.comp_apply, canFrame_id servoMap hid]

/-- What is on a bus after the frames of a cycle were sent. -/
theorem received_servoMap {enableAux : Bool} {servoMap : Std.TreeMap Int Int}
    (hmap : OnBoard enableAux servoMap) (velocityMap : Std.TreeMap Int K) {bus : Int}
    (hbus : bus ∈ busOrder) :
    received bus (sendCan enableAux ((servoMap.toList.map fun p =>
        cycleFrame velocityMap p.1 p.2).map (canFrame servoMap))) =
      (servoMap.toList.filter (·.2 = bus)).map fun p =>
        (BitVec.ofNat 32 (2 ^ 15 + p.1.toNat),
          (canFrame servoMap (cycleFrame velocityMap p.1 p.2)).padded) :=
  received_motorFrames hmap (fun _ hp => Std.TreeMap.mem_toList_iff_getElem?_eq_some.mp hp) hbus

/-- What a device makes of a frame of a cycle as it comes over the bus. -/
theorem accesses_padded (servoMap : Std.TreeMap Int Int) (velocityMap : Std.TreeMap Int K)
    (id bus : Int) :
    accesses (canFrame servoMap (cycleFrame velocityMap id bus)).padded =
      positionAccesses (velocityMap[id]?.getD 0) :=
  accesses_position id bus _ _

/-- **On every bus there are the commands of the motors that the map has there**, in the order of
their ids: each is told its velocity and asked for the registers of the default query. -/
theorem received_cycle {enableAux : Bool} {servoMap : Std.TreeMap Int Int}
    (hmap : OnBoard enableAux servoMap) (velocityMap : Std.TreeMap Int K) (bytes : RawBus)
    {bus : Int} (hbus : bus ∈ busOrder) :
    ∃ frames data, cycleRaw (controllers servoMap) velocityMap bytes = some (frames, data) ∧
      (received bus (sendCan enableAux (frames.map fun p => canFrame servoMap p.2))).map
          (fun frame => (frame.1, accesses frame.2)) =
        (servoMap.toList.filter (·.2 = bus)).map fun p =>
          (BitVec.ofNat 32 (2 ^ 15 + p.1.toNat), positionAccesses (velocityMap[p.1]?.getD 0)) := by
  refine ⟨_, _, cycleRaw_eq_some servoMap velocityMap bytes, ?_⟩
  have hframes : (((cycle (controllers servoMap) velocityMap (abstractBus bytes)).1.map fun p =>
      (p.1, Controller.encodeFrame 22 p.2)).map fun p => canFrame servoMap p.2) =
      (servoMap.toList.map fun p => cycleFrame velocityMap p.1 p.2).map (canFrame servoMap) := by
    rw [← commandFrames_servoMap, List.map_map, List.map_map]
    rfl
  rw [hframes, received_servoMap hmap velocityMap hbus, List.map_map]
  refine List.map_congr_left fun p _ => ?_
  simp only [Function.comp_apply, accesses_padded]

theorem onBoard_pair : OnBoard false (.ofList [((1 : Int), (1 : Int)), (2, 4)]) := by
  intro id bus hentry
  rw [← Std.TreeMap.mem_toList_iff_getElem?_eq_some] at hentry
  have hmem : (id, bus) ∈ [((1 : Int), (1 : Int)), (2, 4)] := hentry
  simp only [List.mem_cons, Prod.mk.injEq, List.not_mem_nil, or_false] at hmem
  rcases hmem with ⟨rfl, rfl⟩ | ⟨rfl, rfl⟩
  · exact ⟨by decide, by decide, by decide⟩
  · exact ⟨by decide, by decide, by decide⟩

/-- The second motor has the fourth bus to itself. -/
theorem received_cycle_pair :
    ∃ frames data, cycleRaw (controllers (.ofList [((1 : Int), (1 : Int)), (2, 4)]))
        (.ofList [((2 : Int), (7 : ℝ))]) (fun _ => []) = some (frames, data) ∧
      (received 4 (sendCan false (frames.map fun p =>
          canFrame (.ofList [((1 : Int), (1 : Int)), (2, 4)]) p.2))).map
          (fun frame => (frame.1, accesses frame.2)) = [(0x8002, positionAccesses (7 : ℝ))] := by
  obtain ⟨frames, data, hcycle, hreceived⟩ := received_cycle onBoard_pair
    (.ofList [((2 : Int), (7 : ℝ))]) (fun _ => []) (by decide : (4 : Int) ∈ busOrder)
  exact ⟨frames, data, hcycle, hreceived.trans rfl⟩

/-! ## The board between host and devices -/

/-- What a device answers to a frame on its bus: the frame is for the one that the lower bits of the
id name, bit 15 asks for an answer, which goes back to where the frame came from. -/
def deviceAnswer (devices : Int → Option Values) (padding : Nat)
    (frame : BitVec 32 × List UInt8) : Option (BitVec 32 × List UInt8) :=
  let id := frame.1.toNat
  if id / 2 ^ 15 % 2 = 0 then none
  else (devices (id % 128 : Nat)).map fun values =>
    (BitVec.ofNat 32 (id % 128 * 2 ^ 8 + id / 2 ^ 8 % 128),
      values.reply (accesses frame.2) ++ List.replicate padding kNop)

/-- The replies to the frames of a cycle, bus by bus. -/
def hatReplies (enableAux : Bool) (servoMap : Std.TreeMap Int Int)
    (devices : Int → Int → Option Values) (padding : Nat) (frames : List RawFrame) :
    List RawReply :=
  busOrder.flatMap fun bus =>
    ((received bus (sendCan enableAux (frames.map (canFrame servoMap)))).filterMap
      (deviceAnswer (devices bus) padding)).map fun reply => canReply reply.1 reply.2

/-- The reply of one motor of the map. -/
def hatReply (velocityMap : Std.TreeMap Int K) (padding : Nat) (id : Int)
    (values : Values) : RawReply :=
  { source := id
    data := values.reply (positionAccesses (velocityMap[id]?.getD 0)) ++
      List.replicate padding kNop }

/-- A motor's frame is answered by the device with its id, and the reply says so. -/
theorem deviceAnswer_cycle (servoMap : Std.TreeMap Int Int) (velocityMap : Std.TreeMap Int K)
    (devices : Int → Option Values) (padding : Nat) {id : Int} (hid : 0 ≤ id ∧ id < 128)
    (bus : Int) :
    (deviceAnswer devices padding (BitVec.ofNat 32 (2 ^ 15 + id.toNat),
        (canFrame servoMap (cycleFrame velocityMap id bus)).padded)).map
        (fun reply => canReply reply.1 reply.2) =
      (devices id).map (hatReply velocityMap padding id) := by
  have htoNat : (BitVec.ofNat 32 (2 ^ 15 + id.toNat)).toNat = 2 ^ 15 + id.toNat := by
    rw [BitVec.toNat_ofNat]
    omega
  have hbit : ¬ (2 ^ 15 + id.toNat) / 2 ^ 15 % 2 = 0 := by omega
  have hlow : (2 ^ 15 + id.toNat) % 128 = id.toNat := by omega
  have hsource : (2 ^ 15 + id.toNat) / 2 ^ 8 % 128 = 0 := by omega
  have hid' : ((id.toNat : Nat) : Int) = id := Int.toNat_of_nonneg hid.1
  have hreply : (BitVec.ofNat 32 (id.toNat * 2 ^ 8 + 0)).toNat / 2 ^ 8 % 128 = id.toNat := by
    rw [BitVec.toNat_ofNat]
    omega
  rw [deviceAnswer]
  simp only [htoNat, if_neg hbit, hlow, hsource, hid', accesses_padded, Option.map_map]
  congr 1
  funext values
  simp only [Function.comp_apply, canReply, hreply, hid', hatReply]

/-- What comes back from the board. -/
theorem mem_hatReplies {enableAux : Bool} {servoMap : Std.TreeMap Int Int}
    (hmap : OnBoard enableAux servoMap) (velocityMap : Std.TreeMap Int K)
    (devices : Int → Int → Option Values) (padding : Nat) (reply : RawReply) :
    reply ∈ hatReplies enableAux servoMap devices padding
        (servoMap.toList.map fun p => cycleFrame velocityMap p.1 p.2) ↔
      ∃ id bus values, servoMap[id]? = some bus ∧ devices bus id = some values ∧
        reply = hatReply velocityMap padding id values := by
  have hanswer : ∀ id bus, servoMap[id]? = some bus →
      (deviceAnswer (devices bus) padding (BitVec.ofNat 32 (2 ^ 15 + id.toNat),
        (canFrame servoMap (cycleFrame velocityMap id bus)).padded)).map
          (fun reply => canReply reply.1 reply.2) =
        (devices bus id).map (hatReply velocityMap padding id) :=
    fun id bus h =>
      deviceAnswer_cycle servoMap velocityMap (devices bus) padding (hmap id bus h).1 bus
  rw [hatReplies, List.mem_flatMap]
  constructor
  · rintro ⟨bus, hbus, hmem⟩
    rw [received_servoMap hmap velocityMap hbus] at hmem
    obtain ⟨answer, hfilter, rfl⟩ := List.mem_map.mp hmem
    obtain ⟨frame, hframe, hdevice⟩ := List.mem_filterMap.mp hfilter
    obtain ⟨⟨id, bus'⟩, hfiltered, rfl⟩ := List.mem_map.mp hframe
    obtain ⟨hp, hsame⟩ := List.mem_filter.mp hfiltered
    obtain rfl : bus' = bus := by simpa using hsame
    have hentry := Std.TreeMap.mem_toList_iff_getElem?_eq_some.mp hp
    have h := hanswer id bus' hentry
    rw [hdevice, Option.map_some] at h
    obtain ⟨values, hvalues, heq⟩ := Option.map_eq_some_iff.mp h.symm
    exact ⟨id, bus', values, hentry, hvalues, heq.symm⟩
  · rintro ⟨id, bus, values, hentry, hvalues, rfl⟩
    have hbus := (hmap id bus hentry).2.1
    have h := hanswer id bus hentry
    rw [hvalues, Option.map_some] at h
    obtain ⟨answer, hdevice, heq⟩ := Option.map_eq_some_iff.mp h
    refine ⟨bus, hbus, ?_⟩
    rw [received_servoMap hmap velocityMap hbus]
    refine List.mem_map.mpr ⟨answer,
      List.mem_filterMap.mpr ⟨_, List.mem_map.mpr ⟨(id, bus), ?_, rfl⟩, hdevice⟩, heq⟩
    exact List.mem_filter.mpr ⟨Std.TreeMap.mem_toList_iff_getElem?_eq_some.mpr hentry, by simp⟩

/-- A map built by insertions has all of them if no two of one key differ. -/
theorem mem_foldl_insert_of_agree {α β : Type} {key : α → Int} {value : α → β} {l : List α}
    (hl : ∀ a ∈ l, ∀ b ∈ l, key a = key b → value a = value b) {k : Int} {v : β} :
    (k, v) ∈ (l.foldl (fun m a => m.insert (key a) (value a)) (∅ : Std.TreeMap Int β)).toList ↔
      ∃ a ∈ l, key a = k ∧ value a = v := by
  refine ⟨mem_toList_foldl_insert, ?_⟩
  rintro ⟨a, ha, rfl, rfl⟩
  rw [Std.TreeMap.mem_toList_iff_getElem?_eq_some]
  induction l using List.reverseRecOn with
  | nil => cases ha
  | append_singleton l b ih =>
    have hb : b ∈ l ++ [b] := List.mem_append_right _ (List.mem_singleton_self _)
    rw [List.foldl_append, List.foldl_cons, List.foldl_nil, Std.TreeMap.getElem?_insert]
    split
    · rename_i hkey
      rw [hl a ha b hb (Std.LawfulEqCmp.eq_of_compare hkey).symm]
    · rename_i hkey
      rcases List.mem_append.mp ha with ha | ha
      · exact ih (fun c hc d hd => hl c (List.mem_append_left _ hc) d (List.mem_append_left _ hd)) ha
      · rw [List.mem_singleton.mp ha] at hkey
        exact absurd (Std.LawfulEqCmp.compare_eq_iff_eq.mpr rfl) hkey

/-- Replies that are those of the motors of the map are reported as what the motors sent. -/
theorem rawServoData_hat {servoMap : Std.TreeMap Int Int} {velocityMap : Std.TreeMap Int K}
    {devices : Int → Int → Option Values} {padding : Nat} {replies : List RawReply}
    (hreplies : ∀ reply, reply ∈ replies ↔ ∃ id bus values, servoMap[id]? = some bus ∧
      devices bus id = some values ∧ reply = hatReply velocityMap padding id values) :
    ∃ data : Std.TreeMap Int (MotorTelemetry K), rawServoData ∅ replies = some data ∧
      ∀ id : Int, data[id]? = (servoMap[id]?).bind fun bus => (devices bus id).map report := by
  have hreport : ∀ reply ∈ replies, ∃ bus values, servoMap[reply.source]? = some bus ∧
      devices bus reply.source = some values ∧
      parseReply (decodeReply reply) = (report values : MotorTelemetry K) := by
    intro reply hreply
    obtain ⟨id, bus, values, hentry, hvalues, rfl⟩ := (hreplies reply).mp hreply
    exact ⟨bus, values, hentry, hvalues, parseReply_position id _ values padding⟩
  have hagree : ∀ a ∈ replies, ∀ b ∈ replies,
      (decodeReply (K := K) a).source = (decodeReply (K := K) b).source →
      parseReply (K := K) (decodeReply a) = parseReply (decodeReply b) := by
    intro a ha b hb hsource
    obtain ⟨bus, values, hentry, hvalues, hparse⟩ := hreport a ha
    obtain ⟨bus', values', hentry', hvalues', hparse'⟩ := hreport b hb
    have hsame : a.source = b.source := hsource
    rw [hsame, hentry', Option.some_inj] at hentry
    subst hentry
    rw [hsame, hvalues', Option.some_inj] at hvalues
    rw [hparse, hparse', hvalues]
  refine ⟨_, rawServoData_eq _ _, fun id => ?_⟩
  rw [List.foldl_map]
  refine Option.ext fun t => ?_
  have hiff := mem_foldl_insert_of_agree hagree (k := id) (v := t)
  rw [← Std.TreeMap.mem_toList_iff_getElem?_eq_some, hiff]
  constructor
  · rintro ⟨reply, hreply, rfl, rfl⟩
    obtain ⟨bus, values, hentry, hvalues, hparse⟩ := hreport reply hreply
    have hsource : (decodeReply (K := K) reply).source = reply.source := rfl
    rw [hsource, hentry, Option.bind_some, hvalues, Option.map_some, hparse]
  · intro h
    obtain ⟨bus, hentry, h⟩ := Option.bind_eq_some_iff.mp h
    obtain ⟨values, hvalues, rfl⟩ := Option.map_eq_some_iff.mp h
    exact ⟨hatReply velocityMap padding id values,
      (hreplies _).mpr ⟨id, bus, values, hentry, hvalues, rfl⟩, rfl,
      parseReply_position id _ values padding⟩

/-- What a cycle over the board returns is made of the replies to its frames. -/
theorem cycleRaw_replies (servoMap : Std.TreeMap Int Int) (velocityMap : Std.TreeMap Int K)
    {hat : RawBus} {data : Std.TreeMap Int (MotorTelemetry K)}
    (hdata : rawServoData ∅
      (if servoMap.toList = [] then []
        else hat (servoMap.toList.map fun p => cycleFrame velocityMap p.1 p.2)) = some data) :
    ∃ frames, cycleRaw (controllers servoMap) velocityMap hat = some (frames, data) := by
  have hframes := rawFrames_eq (K := K)
    (fun p (hp : p ∈ (controllers servoMap).toList) => controllers_mem hp) velocityMap
  have hsent : ((controllers servoMap).toList.map fun p =>
      (p.1, Controller.encodeFrame 22 (p.2.makePosition
        { position := .nan, velocity := velocityMap[p.1]?.getD 0 }))) =
      servoMap.toList.map fun p => (p.1, cycleFrame velocityMap p.1 p.2) := by
    rw [toList_controllers, List.map_map]
    rfl
  rw [hsent] at hframes
  refine ⟨servoMap.toList.map fun p => (p.1, cycleFrame velocityMap p.1 p.2), ?_⟩
  have hmap : ((fun p : Int × RawFrame => p.2) ∘ fun p : Int × Int =>
      (p.1, cycleFrame velocityMap p.1 p.2)) = fun p => cycleFrame velocityMap p.1 p.2 := rfl
  unfold cycleRaw
  simp only [hframes, Option.bind_eq_bind, Option.bind_some, List.map_map, List.isEmpty_iff,
    List.map_eq_nil_iff, hmap, hdata]
  rfl

/-- **Over the board a cycle reports each motor that is on the bus the map has it on**, with what it
sent, in whatever order the replies come in and whichever come twice. A motor on another bus is not
reached. -/
theorem cycleRaw_hat {enableAux : Bool} {servoMap : Std.TreeMap Int Int}
    (hmap : OnBoard enableAux servoMap) (velocityMap : Std.TreeMap Int K)
    {devices : Int → Int → Option Values} {padding : Nat} {hat : RawBus}
    (hhat : ∀ frames reply, reply ∈ hat frames ↔
      reply ∈ hatReplies enableAux servoMap devices padding frames) :
    ∃ frames data, cycleRaw (controllers servoMap) velocityMap hat = some (frames, data) ∧
      ∀ id : Int, data[id]? = (servoMap[id]?).bind fun bus => (devices bus id).map report := by
  have hmem := mem_hatReplies hmap velocityMap devices padding
  have hreplies : ∀ reply, reply ∈ (if servoMap.toList = [] then []
        else hat (servoMap.toList.map fun p => cycleFrame velocityMap p.1 p.2)) ↔
      ∃ id bus values, servoMap[id]? = some bus ∧ devices bus id = some values ∧
        reply = hatReply velocityMap padding id values := by
    intro reply
    split
    · -- Without a motor nothing is sent, and nothing comes back.
      rename_i hnone
      constructor
      · intro hreply
        cases hreply
      · rintro ⟨id, bus, -, hentry, -⟩
        have hin := Std.TreeMap.mem_toList_iff_getElem?_eq_some.mpr hentry
        rw [hnone] at hin
        cases hin
    · rw [hhat, hmem]
  obtain ⟨data, hdata, hget⟩ := rawServoData_hat hreplies
  obtain ⟨frames, hcycle⟩ := cycleRaw_replies servoMap velocityMap hdata
  exact ⟨frames, data, hcycle, hget⟩

/-- The second motor has been plugged in at another bus than the map says. -/
theorem cycleRaw_hat_pair :
    let servoMap : Std.TreeMap Int Int := .ofList [((1 : Int), (1 : Int)), (2, 4)]
    let devices : Int → Int → Option Values :=
      fun bus id => if bus = 1 ∧ (id = 1 ∨ id = 2) then some (.constant 1) else none
    ∃ frames data, cycleRaw (controllers servoMap) (∅ : Std.TreeMap Int ℝ)
        (hatReplies false servoMap devices 1) = some (frames, data) ∧
      data[(1 : Int)]? = some (report (.constant 1)) ∧ data[(2 : Int)]? = none := by
  intro servoMap devices
  obtain ⟨frames, data, hcycle, hdata⟩ :=
    @cycleRaw_hat ℝ _ _ _ _ false servoMap onBoard_pair ∅ devices 1
      (hatReplies false servoMap devices 1) fun _ _ => Iff.rfl
  exact ⟨frames, data, hcycle, (hdata 1).trans rfl, (hdata 2).trans rfl⟩

end Telemetry

end RobotFramework
