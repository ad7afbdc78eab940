import Mathlib.Tactic.SplitIfs
import RobotFramework.Moteus.Device

/-!
# `mjbots/pi3hat/pi3hat.cc`: frames on their way out

A frame goes to one of five buses, each behind one of the processors of the board. `SendCan` sorts
the frames of a cycle by bus and sends them in rounds, one frame of each bus a round, so that every
bus has its frames in the order they were given in (`sendCan_rounds`). A frame is written over SPI
with its id in two bytes or in four and its data filled up to a length that CAN-FD has
(`readPacket_spiPacket`).
-/

namespace Pi3Hat

open Moteus

/-- `CanFrame` -/
structure CanFrame where
  id : BitVec 32
  data : CanData
  bus : Int
  expectReply : Bool
  expectedReplySize : UInt8

/-! ## One frame -/

/-- `RoundUpDlc` -/
def roundUpDlc (value : Nat) : Nat :=
  if value ≤ 8 then value
  else if value ≤ 12 then 12
  else if value ≤ 16 then 16
  else if value ≤ 20 then 20
  else if value ≤ 24 then 24
  else if value ≤ 32 then 32
  else if value ≤ 48 then 48
  else if value ≤ 64 then 64
  else 0

theorem roundUpDlc_bounds {value : Nat} (h : value ≤ 64) :
    value ≤ roundUpDlc value ∧ roundUpDlc value ≤ 64 := by
  unfold roundUpDlc
  split_ifs <;> omega

/-- The data of a frame as it is sent. -/
def CanFrame.padded (frame : CanFrame) : List UInt8 :=
  frame.data.data ++ List.replicate (roundUpDlc frame.data.data.length - frame.data.data.length) 0x50

theorem CanFrame.length_padded (frame : CanFrame) :
    frame.padded.length = roundUpDlc frame.data.data.length := by
  have h := roundUpDlc_bounds frame.data.size_le
  rw [padded, List.length_append, List.length_replicate]
  omega

/-- `SendCanPacketSpi`: the SPI address, and what is written to it. -/
def spiPacket (cpuBus : Nat) (frame : CanFrame) : Nat × List UInt8 :=
  let size := roundUpDlc frame.data.data.length
  let id := frame.id.toNat
  let head := (if cpuBus = 1 then 0x80 else 0x00) ||| UInt8.ofNat (size % 128)
  if id ≤ 0xffff then
    -- The formulation with an id of two bytes.
    (5, [head, UInt8.ofNat (id / 2 ^ 8), UInt8.ofNat id] ++ frame.padded)
  else
    (4, [head, UInt8.ofNat (id / 2 ^ 24), UInt8.ofNat (id / 2 ^ 16), UInt8.ofNat (id / 2 ^ 8),
      UInt8.ofNat id] ++ frame.padded)

/-- What the board takes from a write: the bus of the processor, the id and the data. -/
def readPacket (address : Nat) (bytes : List UInt8) : Option (Nat × BitVec 32 × List UInt8) :=
  match address, bytes with
  | 5, head :: b1 :: b0 :: data =>
    some (if head &&& 0x80 = 0 then 0 else 1, BitVec.ofNat 32 (b1.toNat * 2 ^ 8 + b0.toNat),
      data.take (head &&& 0x7f).toNat)
  | 4, head :: b3 :: b2 :: b1 :: b0 :: data =>
    some (if head &&& 0x80 = 0 then 0 else 1,
      BitVec.ofNat 32 (b3.toNat * 2 ^ 24 + b2.toNat * 2 ^ 16 + b1.toNat * 2 ^ 8 + b0.toNat),
      data.take (head &&& 0x7f).toNat)
  | _, _ => none

theorem head_byte : ∀ cpuBus < 2, ∀ size ≤ 64,
    (if ((if cpuBus = 1 then 0x80 else 0x00) ||| UInt8.ofNat (size % 128)) &&& 0x80 = (0 : UInt8)
      then 0 else 1) = cpuBus ∧
    ((((if cpuBus = 1 then 0x80 else 0x00) ||| UInt8.ofNat (size % 128)) &&& 0x7f : UInt8)).toNat =
      size := by
  decide

/-- **The board takes from a write what was in the frame**: bus and id, and the data with the padding
behind it. -/
theorem readPacket_spiPacket {cpuBus : Nat} (hbus : cpuBus < 2) (frame : CanFrame) :
    readPacket (spiPacket cpuBus frame).1 (spiPacket cpuBus frame).2 =
      some (cpuBus, frame.id, frame.padded) := by
  have hsize := roundUpDlc_bounds frame.data.size_le
  obtain ⟨hhead, hlength⟩ := head_byte cpuBus hbus (roundUpDlc frame.data.data.length) hsize.2
  have hid := frame.id.isLt
  have htake : frame.padded.take (roundUpDlc frame.data.data.length) = frame.padded :=
    List.take_of_length_le frame.length_padded.le
  have hofNat : BitVec.ofNat 32 frame.id.toNat = frame.id := by simp
  unfold spiPacket
  dsimp only
  split
  · rename_i hsmall
    have hbytes : (UInt8.ofNat (frame.id.toNat / 2 ^ 8)).toNat * 2 ^ 8 +
        (UInt8.ofNat frame.id.toNat).toNat = frame.id.toNat := by
      rw [UInt8.toNat_ofNat', UInt8.toNat_ofNat']
      omega
    simp only [List.cons_append, List.nil_append, readPacket]
    rw [hhead, hlength, htake, hbytes, hofNat]
  · have hbytes : (UInt8.ofNat (frame.id.toNat / 2 ^ 24)).toNat * 2 ^ 24 +
        (UInt8.ofNat (frame.id.toNat / 2 ^ 16)).toNat * 2 ^ 16 +
        (UInt8.ofNat (frame.id.toNat / 2 ^ 8)).toNat * 2 ^ 8 +
        (UInt8.ofNat frame.id.toNat).toNat = frame.id.toNat := by
      simp only [UInt8.toNat_ofNat']
      omega
    simp only [List.cons_append, List.nil_append, readPacket]
    rw [hhead, hlength, htake, hbytes, hofNat]

/-! ## The frames of a cycle -/

/-- The processors, as the host reaches them. -/
inductive Spi where
  | aux
  | primary
deriving DecidableEq

/-- A `Write` over SPI. -/
structure Transfer where
  spi : Spi
  cs : Nat
  address : Nat
  bytes : List UInt8

/-- Where a bus is: the SPI, the chip select, and which bus of the processor it is. -/
def line : Int → Option (Spi × Nat × Nat)
  | 1 => some (.aux, 0, 0)
  | 2 => some (.aux, 0, 1)
  | 3 => some (.aux, 1, 0)
  | 4 => some (.aux, 1, 1)
  | 5 => some (.primary, 0, 0)
  | _ => none

/-- `SendCanPacket`. The fifth bus is there only with the auxiliary processor. -/
def sendCanPacket (enableAux : Bool) (frame : CanFrame) : List Transfer :=
  if frame.bus = 5 ∧ enableAux = false then []
  else
    match line frame.bus with
    | some (spi, cs, cpuBus) =>
      [{ spi, cs, address := (spiPacket cpuBus frame).1, bytes := (spiPacket cpuBus frame).2 }]
    | none => []

/-- The order in which the buses are served. -/
def busOrder : List Int := [1, 3, 5, 2, 4]

/-- `can_packets_` -/
def canPackets (tx : List CanFrame) (bus : Int) : List CanFrame := tx.filter (·.bus = bus)

/-- The rounds of `SendCan`, `packets` being what is left of each bus. A round that sends nothing is
the last one. -/
def sendRounds : Nat → (Int → List CanFrame) → List (List CanFrame)
  | 0, _ => []
  | fuel + 1, packets =>
    let sent := busOrder.filterMap fun bus => (packets bus).head?
    if sent.isEmpty then [] else sent :: sendRounds fuel fun bus => (packets bus).tail

/-- `SendCan`. There are no more rounds than frames. -/
def sendCan (enableAux : Bool) (tx : List CanFrame) : List Transfer :=
  (sendRounds (tx.length + 1) (canPackets tx)).flatten.flatMap (sendCanPacket enableAux)

/-- In every round each bus has its turn, and there are rounds until no bus has a frame left. -/
theorem sendRounds_getD {fuel : Nat} {packets : Int → List CanFrame}
    (hfuel : ∀ bus, (packets bus).length ≤ fuel) (i : Nat) :
    (sendRounds fuel packets)[i]?.getD [] = busOrder.filterMap fun bus => (packets bus)[i]? := by
  induction fuel generalizing packets i with
  | zero =>
    have hnil : ∀ bus, packets bus = [] := fun bus =>
      List.length_eq_zero_iff.mp (Nat.le_zero.mp (hfuel bus))
    simp [sendRounds, hnil]
  | succ fuel ih =>
    rw [sendRounds]
    split
    · rename_i hempty
      rw [List.isEmpty_iff, List.filterMap_eq_nil_iff] at hempty
      apply Eq.symm
      apply List.filterMap_eq_nil_iff.mpr
      intro bus hbus
      rw [List.head?_eq_none_iff.mp (hempty bus hbus)]
      rfl
    · cases i with
      | zero =>
        rw [List.getElem?_cons_zero, Option.getD_some]
        exact List.filterMap_congr fun bus _ => List.head?_eq_getElem?
      | succ i =>
        have hlength : ∀ bus, ((packets bus).tail).length ≤ fuel := by
          intro bus
          have := hfuel bus
          rw [List.length_tail]
          omega
        rw [List.getElem?_cons_succ, ih hlength]
        exact List.filterMap_congr fun bus _ => List.getElem?_tail

/-- What is picked for each bus in turn has one frame of a bus at most. -/
theorem filter_filterMap {order : List Int} (horder : order.Nodup) {pick : Int → Option CanFrame}
    (hpick : ∀ bus, ∀ frame ∈ pick bus, frame.bus = bus) (bus : Int) :
    (order.filterMap pick).filter (·.bus = bus) = if bus ∈ order then (pick bus).toList else [] := by
  induction order with
  | nil => rfl
  | cons b order ih =>
    obtain ⟨hnot, hrest⟩ := List.nodup_cons.mp horder
    have hhead : ((pick b).toList.filter (·.bus = bus)) =
        if b = bus then (pick b).toList else [] := by
      cases hb : pick b with
      | none => simp
      | some frame =>
        have hframe := hpick b frame hb
        by_cases hsame : b = bus <;> simp [hframe, hsame]
    have hcons : (b :: order).filterMap pick = (pick b).toList ++ order.filterMap pick := by
      rw [List.filterMap_cons]
      cases pick b <;> rfl
    rw [hcons, List.filter_append, hhead, ih hrest]
    by_cases hsame : b = bus
    · subst hsame
      rw [if_pos rfl, if_neg hnot, List.append_nil, if_pos List.mem_cons_self]
    · rw [if_neg hsame, List.nil_append]
      simp only [List.mem_cons, Ne.symm hsame, false_or]

/-- **Every bus has its frames**, each once and in order, when there are rounds enough. -/
theorem sendRounds_filter {fuel : Nat} {packets : Int → List CanFrame}
    (hpackets : ∀ bus, ∀ frame ∈ packets bus, frame.bus = bus)
    (hfuel : ∀ bus, (packets bus).length ≤ fuel) (bus : Int) :
    (sendRounds fuel packets).flatten.filter (·.bus = bus) =
      if bus ∈ busOrder then packets bus else [] := by
  induction fuel generalizing packets with
  | zero =>
    rw [List.length_eq_zero_iff.mp (Nat.le_zero.mp (hfuel bus)), ite_self]
    rfl
  | succ fuel ih =>
    have horder : busOrder.Nodup := by decide
    have hhead : ∀ bus, ∀ frame ∈ (packets bus).head?, frame.bus = bus :=
      fun bus frame hframe => hpackets bus frame (List.mem_of_mem_head? hframe)
    have htail : ∀ bus, ∀ frame ∈ (packets bus).tail, frame.bus = bus :=
      fun bus frame hframe => hpackets bus frame (List.mem_of_mem_tail hframe)
    have hlength : ∀ bus, ((packets bus).tail).length ≤ fuel := by
      intro bus
      have := hfuel bus
      rw [List.length_tail]
      omega
    have hround := filter_filterMap horder hhead bus
    have hrest := ih htail hlength
    rw [sendRounds]
    split
    · -- No bus had a frame left.
      rename_i hempty
      rw [List.isEmpty_iff, List.filterMap_eq_nil_iff] at hempty
      split
      · rename_i hbus
        exact (List.head?_eq_none_iff.mp (hempty bus hbus)).symm
      · rfl
    · rw [List.flatten_cons, List.filter_append, hround, hrest]
      split
      · cases packets bus <;> rfl
      · rfl

theorem canPackets_bus (tx : List CanFrame) (bus : Int) :
    ∀ frame ∈ canPackets tx bus, frame.bus = bus := by
  intro frame hframe
  simpa using (List.mem_filter.mp hframe).2

theorem canPackets_length (tx : List CanFrame) (bus : Int) :
    (canPackets tx bus).length ≤ tx.length + 1 :=
  (List.length_filter_le _ _).trans (Nat.le_succ _)

/-! ## What arrives on a bus -/

/-- What the board puts on a bus of the writes it gets: ids and data. -/
def received (bus : Int) (transfers : List Transfer) : List (BitVec 32 × List UInt8) :=
  transfers.filterMap fun t =>
    match line bus, readPacket t.address t.bytes with
    | some (spi, cs, cpuBus), some (cpuBus', id, data) =>
      if t.spi = spi ∧ t.cs = cs ∧ cpuBus' = cpuBus then some (id, data) else none
    | _, _ => none

theorem line_injective {bus bus' : Int} {l : Spi × Nat × Nat} (h : line bus = some l)
    (h' : line bus' = some l) : bus = bus' := by
  have hsame := h.trans h'.symm
  have hsome : (line bus').isSome := by rw [h']; rfl
  unfold line at hsame hsome
  split at hsame <;> split at hsame <;> simp_all

theorem line_cpuBus {bus : Int} {spi : Spi} {cs cpuBus : Nat}
    (h : line bus = some (spi, cs, cpuBus)) : cpuBus < 2 := by
  unfold line at h
  split at h <;> simp_all <;> omega

/-- Whether a bus is there: the fifth is only with the auxiliary processor. -/
def Usable (enableAux : Bool) (bus : Int) : Prop :=
  bus ∈ busOrder ∧ ¬ (bus = 5 ∧ enableAux = false)

theorem Usable.bounds {enableAux : Bool} {bus : Int} (h : Usable enableAux bus) :
    1 ≤ bus ∧ bus ≤ 5 := by
  have hbus := h.1
  simp only [busOrder, List.mem_cons, List.not_mem_nil, or_false] at hbus
  omega

theorem line_isSome {bus : Int} (hbus : bus ∈ busOrder) :
    ∃ spi cs cpuBus, line bus = some (spi, cs, cpuBus) := by
  simp only [busOrder, List.mem_cons, List.not_mem_nil, or_false] at hbus
  rcases hbus with rfl | rfl | rfl | rfl | rfl <;> exact ⟨_, _, _, rfl⟩

/-- A frame arrives on its own bus and on no other. -/
theorem received_sendCanPacket {enableAux : Bool} (frame : CanFrame) {bus : Int}
    (hbus : Usable enableAux bus) :
    received bus (sendCanPacket enableAux frame) =
      if frame.bus = bus then [(frame.id, frame.padded)] else [] := by
  obtain ⟨spi, cs, cpuBus, hline⟩ := line_isSome hbus.1
  rw [sendCanPacket]
  split
  · rename_i haux
    rw [if_neg]
    · rfl
    · intro hsame
      exact hbus.2 ⟨hsame.symm.trans haux.1, haux.2⟩
  · cases hframe : line frame.bus with
    | none =>
      rw [if_neg]
      · rfl
      · rintro rfl
        rw [hframe] at hline
        cases hline
    | some l =>
      obtain ⟨spi', cs', cpuBus'⟩ := l
      have hread := readPacket_spiPacket (line_cpuBus hframe) frame
      simp only [received, List.filterMap_cons, List.filterMap_nil, hline, hread]
      by_cases hsame : frame.bus = bus
      · rw [hsame, hline] at hframe
        cases hframe
        simp [hsame]
      · have hne : ¬ (spi' = spi ∧ cs' = cs ∧ cpuBus' = cpuBus) := by
          rintro ⟨rfl, rfl, rfl⟩
          exact hsame (line_injective hframe hline)
        rw [if_neg hne, if_neg hsame]

/-- Without the auxiliary processor nothing arrives on the fifth bus. -/
theorem received_sendCanPacket_five (frame : CanFrame) :
    received 5 (sendCanPacket false frame) = [] := by
  rw [sendCanPacket]
  split
  · rfl
  · rename_i haux
    cases hframe : line frame.bus with
    | none => rfl
    | some l =>
      obtain ⟨spi, cs, cpuBus⟩ := l
      have hread := readPacket_spiPacket (line_cpuBus hframe) frame
      have hne : ¬ (spi = .primary ∧ cs = 0 ∧ cpuBus = 0) := by
        rintro ⟨rfl, rfl, rfl⟩
        have hfive : line 5 = some (.primary, 0, 0) := rfl
        exact haux ⟨line_injective hframe hfive, rfl⟩
      have hfive : line 5 = some (.primary, 0, 0) := rfl
      simp only [received, List.filterMap_cons, List.filterMap_nil, hfive, hread, if_neg hne]

theorem received_append (bus : Int) (transfers transfers' : List Transfer) :
    received bus (transfers ++ transfers') = received bus transfers ++ received bus transfers' :=
  List.filterMap_append

theorem received_flatMap {enableAux : Bool} (frames : List CanFrame) {bus : Int}
    (hbus : Usable enableAux bus) :
    received bus (frames.flatMap (sendCanPacket enableAux)) =
      (frames.filter (·.bus = bus)).map fun frame => (frame.id, frame.padded) := by
  induction frames with
  | nil => rfl
  | cons frame frames ih =>
    rw [List.flatMap_cons, received_append, received_sendCanPacket frame hbus, ih]
    by_cases hsame : frame.bus = bus <;> simp [hsame]

theorem received_flatMap_five (frames : List CanFrame) :
    received 5 (frames.flatMap (sendCanPacket false)) = [] := by
  induction frames with
  | nil => rfl
  | cons frame frames ih =>
    rw [List.flatMap_cons, received_append, received_sendCanPacket_five, ih, List.append_nil]

/-- What arrives on a bus. -/
theorem received_sendCan (enableAux : Bool) (tx : List CanFrame) {bus : Int}
    (hbus : bus ∈ busOrder) :
    received bus (sendCan enableAux tx) =
      if bus = 5 ∧ enableAux = false then []
      else (tx.filter (·.bus = bus)).map fun frame => (frame.id, frame.padded) := by
  split
  · rename_i hfive
    obtain ⟨rfl, rfl⟩ := hfive
    exact received_flatMap_five _
  · rename_i hused
    have hrounds := sendRounds_filter (canPackets_bus tx) (canPackets_length tx) bus
    rw [if_pos hbus] at hrounds
    rw [sendCan, received_flatMap _ ⟨hbus, hused⟩, hrounds, canPackets]

/-- What arrives on a bus does not depend on how the frames are spread over calls. -/
theorem received_flatten (enableAux : Bool) (calls : List (List CanFrame)) {bus : Int}
    (hbus : bus ∈ busOrder) :
    received bus (calls.flatMap (sendCan enableAux)) =
      received bus (sendCan enableAux calls.flatten) := by
  induction calls with
  | nil =>
    rw [List.flatten_nil, received_sendCan _ _ hbus]
    split <;> rfl
  | cons tx calls ih =>
    rw [List.flatMap_cons, received_append, ih, List.flatten_cons]
    simp only [received_sendCan _ _ hbus]
    split
    · rfl
    · rw [List.filter_append, List.map_append]

/-! ## The rounds -/

/-- Frames that are on the buses are those of all buses. -/
theorem length_eq_sum_buses {l : List CanFrame} (h : ∀ frame ∈ l, frame.bus ∈ busOrder) :
    l.length = (busOrder.map fun bus => (l.filter (·.bus = bus)).length).sum := by
  induction l with
  | nil => rfl
  | cons frame l ih =>
    obtain ⟨hframe, hrest⟩ := List.forall_mem_cons.mp h
    have hl := ih hrest
    simp only [busOrder, List.map_cons, List.map_nil, List.sum_cons, List.sum_nil] at hl ⊢
    simp only [busOrder, List.mem_cons, List.not_mem_nil, or_false] at hframe
    simp only [List.filter_cons, List.length_cons]
    rcases hframe with hbus | hbus | hbus | hbus | hbus <;> simp [hbus] <;> omega

/-- A frame is one transfer, if its bus is there. -/
theorem length_sendCanPacket (enableAux : Bool) {frame : CanFrame} (hbus : frame.bus ∈ busOrder) :
    (sendCanPacket enableAux frame).length =
      ([frame].filter fun frame => frame.bus ≠ 5 ∨ enableAux = true).length := by
  obtain ⟨spi, cs, cpuBus, hline⟩ := line_isSome hbus
  rw [sendCanPacket, hline]
  by_cases hfive : frame.bus = 5 <;> cases enableAux <;> simp [hfive]

/-- The frames of all rounds. -/
theorem mem_sendRounds {tx : List CanFrame} {frame : CanFrame}
    (h : frame ∈ (sendRounds (tx.length + 1) (canPackets tx)).flatten) :
    frame ∈ tx ∧ frame.bus ∈ busOrder := by
  obtain ⟨round, hround, hframe⟩ := List.mem_flatten.mp h
  obtain ⟨i, hi⟩ := List.mem_iff_getElem?.mp hround
  have hgetD := sendRounds_getD (canPackets_length tx) i
  rw [hi, Option.getD_some] at hgetD
  rw [hgetD] at hframe
  obtain ⟨bus, hbus, hpick⟩ := List.mem_filterMap.mp hframe
  have hmem := List.mem_of_getElem? hpick
  obtain rfl := canPackets_bus tx bus frame hmem
  exact ⟨(List.mem_filter.mp hmem).1, hbus⟩

/-- There are as many transfers as frames whose bus is there. -/
theorem length_sendCan (enableAux : Bool) {tx : List CanFrame}
    (hbuses : ∀ frame ∈ tx, frame.bus ∈ busOrder) :
    (sendCan enableAux tx).length =
      (tx.filter fun frame => frame.bus ≠ 5 ∨ enableAux = true).length := by
  have hpackets : ∀ frames : List CanFrame, (∀ frame ∈ frames, frame.bus ∈ busOrder) →
      (frames.flatMap (sendCanPacket enableAux)).length =
        (frames.filter fun frame => frame.bus ≠ 5 ∨ enableAux = true).length := by
    intro frames hframes
    induction frames with
    | nil => rfl
    | cons frame frames ih =>
      obtain ⟨hframe, hrest⟩ := List.forall_mem_cons.mp hframes
      rw [List.flatMap_cons, List.length_append, ih hrest, length_sendCanPacket enableAux hframe,
        ← List.length_append, ← List.filter_append, List.singleton_append]
  have hrounds : ∀ frame ∈ (sendRounds (tx.length + 1) (canPackets tx)).flatten,
      frame.bus ∈ busOrder := fun frame hframe => (mem_sendRounds hframe).2
  rw [sendCan, hpackets _ hrounds,
    length_eq_sum_buses fun frame hframe => hrounds frame (List.mem_filter.mp hframe).1,
    length_eq_sum_buses fun frame hframe => hbuses frame (List.mem_filter.mp hframe).1]
  congr 1
  apply List.map_congr_left
  intro bus hbus
  have hfilter := sendRounds_filter (canPackets_bus tx) (canPackets_length tx) bus
  rw [if_pos hbus, canPackets] at hfilter
  rw [List.filter_comm, hfilter, List.filter_comm]

/-- **Every frame goes out once, on its own bus**, if the bus is there, and on each bus in the order
given. The transfers come in rounds, in each of which every bus has its turn, so that none waits for
another one's frames. -/
theorem sendCan_rounds (enableAux : Bool) {tx : List CanFrame}
    (hbuses : ∀ frame ∈ tx, frame.bus ∈ busOrder) :
    (sendCan enableAux tx).length =
        (tx.filter fun frame => frame.bus ≠ 5 ∨ enableAux = true).length ∧
      (∀ bus ∈ busOrder, received bus (sendCan enableAux tx) =
        if bus = 5 ∧ enableAux = false then []
        else (tx.filter (·.bus = bus)).map fun frame => (frame.id, frame.padded)) ∧
      ∃ rounds : List (List Transfer), sendCan enableAux tx = rounds.flatten ∧
        ∀ bus ∈ busOrder, ∀ i : Nat, received bus (rounds[i]?.getD []) =
          if bus = 5 ∧ enableAux = false then []
          else ((tx.filter (·.bus = bus))[i]?.toList).map fun frame => (frame.id, frame.padded) := by
  refine ⟨length_sendCan enableAux hbuses, fun bus hbus => received_sendCan enableAux tx hbus,
    (sendRounds (tx.length + 1) (canPackets tx)).map fun round =>
      round.flatMap (sendCanPacket enableAux), ?_, ?_⟩
  · rw [sendCan, List.flatMap_def, List.map_flatten, List.flatten_flatten, List.map_map]
    rfl
  · intro bus hbus i
    have hpick : ∀ bus, ∀ frame ∈ (canPackets tx bus)[i]?, frame.bus = bus :=
      fun bus frame hframe => canPackets_bus tx bus frame (List.mem_of_getElem? hframe)
    have hround : (((sendRounds (tx.length + 1) (canPackets tx)).map fun round =>
        round.flatMap (sendCanPacket enableAux))[i]?.getD []) =
        (busOrder.filterMap fun bus => (canPackets tx bus)[i]?).flatMap
          (sendCanPacket enableAux) := by
      rw [← sendRounds_getD (canPackets_length tx) i, List.getElem?_map]
      cases (sendRounds (tx.length + 1) (canPackets tx))[i]? <;> rfl
    rw [hround]
    split
    · rename_i hfive
      obtain ⟨rfl, rfl⟩ := hfive
      exact received_flatMap_five _
    · rename_i hused
      rw [received_flatMap _ ⟨hbus, hused⟩, filter_filterMap (by decide) hpick, if_pos hbus,
        canPackets]

/-- Two frames for the first bus, with one for the second between them. -/
theorem sendCan_rounds_three :
    received 1 (sendCan false [⟨0x8001, CanData.empty, 1, true, 22⟩,
      ⟨0x8002, CanData.empty, 2, true, 22⟩, ⟨0x8003, CanData.empty, 1, true, 22⟩]) =
      [(0x8001, []), (0x8003, [])] := by
  have hbuses : ∀ frame ∈ ([⟨0x8001, CanData.empty, 1, true, 22⟩,
      ⟨0x8002, CanData.empty, 2, true, 22⟩, ⟨0x8003, CanData.empty, 1, true, 22⟩] :
        List CanFrame), frame.bus ∈ busOrder := by
    intro frame hframe
    simp only [List.mem_cons, List.not_mem_nil, or_false] at hframe
    rcases hframe with rfl | rfl | rfl <;> decide
  exact ((sendCan_rounds false hbuses).2.1 1 (by decide)).trans rfl

end Pi3Hat
