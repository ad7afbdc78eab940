import Mathlib.Logic.Function.Basic
import RobotFramework.Lib.Reactive
import RobotFramework.Pi3Hat.Send

/-!
# `mjbots/pi3hat/pi3hat.cc`: frames on their way in

Each processor of the board keeps the frames that have arrived on its buses in a queue, which the
host polls over SPI. `Pi3Hat::Cycle` first takes what is there already, then sends, then polls until
it has the replies it expects, its buffer is full, or its time is over (`ReadCan`). Frames may arrive
at any time, so a cycle is not one step: `hat` has one event for what comes before the polling and
one for each poll, and a run is any sequence of these and of arrivals.

Whatever the run, no frame is lost, doubled or overtaken on its way from a queue to a caller
(`received_once`); a cycle that comes back has one of its reasons to (`cycled_complete`); and it does
come back (`cycle_returns`).
-/

namespace Pi3Hat

open Reactive

/-! ## Reading frames -/

/-- The processors with CAN buses, in the order in which they are asked. -/
inductive Processor where
  | can1
  | can2
  | aux
deriving DecidableEq

namespace Processor

def all : List Processor := [can1, can2, aux]

/-- The buses of a processor. -/
def buses : Processor → List Int
  | can1 => [1, 2]
  | can2 => [3, 4]
  | aux => [5]

/-- `bus_start` -/
def busStart : Processor → Int
  | can1 => 1
  | can2 => 3
  | aux => 5

/-- The buses of a processor in a `force_can_check`. -/
def mask : Processor → Nat
  | can1 => 0x06
  | can2 => 0x18
  | aux => 0x20

end Processor

/-- What a processor announces, in the bytes that are read: one with the bus, which is zero where
there is no frame, four of the id, the data. `ReadCanFrames` does not check that a frame has the
first five, and would copy a negative number of bytes if it had not; these are left out. -/
structure Entry where
  bytes : List UInt8
  length_bytes : 1 ≤ bytes.length ∧ bytes.length ≤ 255
  framed : bytes.head? = some 0 ∨ 5 ≤ bytes.length

/-- `CanFrame`, as `ReadCanFrames` fills it in. -/
structure RxFrame where
  bus : Int
  id : BitVec 32
  data : List UInt8
deriving DecidableEq

/-- A frame of a processor, if the first byte says that there is one. More bytes than there can be
are not read. -/
def rxFrame (p : Processor) (entry : Entry) : Option RxFrame :=
  match entry.bytes.take (64 + 5) with
  | head :: b3 :: b2 :: b1 :: b0 :: data =>
    if head = 0 then none
    else some
      { bus := p.busStart + (if head &&& 0x80 = 0 then 0 else 1)
        id := BitVec.ofNat 32
          (b3.toNat * 2 ^ 24 + b2.toNat * 2 ^ 16 + b1.toNat * 2 ^ 8 + b0.toNat)
        data }
  | _ => none

/-- The frames of a processor. -/
def RxFrame.isFrom (p : Processor) (frame : RxFrame) : Bool :=
  frame.bus = p.busStart ∨ frame.bus = p.busStart + 1

/-- The loop over the sizes that the board has told: what is left of these frames, and the buffer. -/
def readEntries (p : Processor) (capacity : Nat) :
    List Entry → List RxFrame → List Entry × List RxFrame
  | [], rx => ([], rx)
  | entry :: entries, rx =>
    if capacity ≤ rx.length then (entry :: entries, rx)
    else readEntries p capacity entries (rx ++ (rxFrame p entry).toList)

/-- `ReadCanFrames`. The board tells the sizes of the first six frames of its queue. As `any_read` is
never set it is asked once. -/
def readCanFrames (p : Processor) (capacity : Nat) (queue : List Entry) (rx : List RxFrame) :
    List Entry × List RxFrame :=
  if capacity ≤ rx.length then (queue, rx)
  else
    let (unread, rx) := readEntries p capacity (queue.take 6) rx
    (unread ++ queue.drop 6, rx)

/-! ## Cycles -/

structure CanConfiguration where
  slowBitrate : Nat := 1000000
  fastBitrate : Nat := 5000000
  bitrateSwitch : Bool := true

structure Configuration where
  spiSpeedHz : Nat := 10000000
  enableAux : Bool := false
  /-- By bus. -/
  can : Int → CanConfiguration := fun _ => {}

/-- `Input`, with the frames to send. The room for replies is not up to the caller. -/
structure Input where
  txCan : List CanFrame
  timeoutNs : Nat := 0
  minTxWaitNs : Nat := 200000
  rxBaselineWaitNs : Nat := 1000000
  rxExtraWaitNs : Nat := 0
  forceCanCheck : Nat := 0

/-- The frames of a bus that expect a reply. -/
def expecting (tx : List CanFrame) (bus : Int) : List CanFrame :=
  tx.filter fun frame => frame.bus = bus ∧ frame.expectReply

/-- What `CalculateExpectedReply` adds to `send_ns` for a frame. -/
def canSendNs (config : Configuration) (frame : CanFrame) : Nat :=
  let can := config.can frame.bus
  let dataBitrate := if can.bitrateSwitch then can.fastBitrate else can.slowBitrate
  let size := frame.data.data.length
  1000000000 * ((if 2048 ≤ frame.id.toNat then 32 else 16) + 8) / can.slowBitrate +
    1000000000 * (size * 8 + 28) / dataBitrate +
    1000000000 * ((size + 5) * 8) / config.spiSpeedHz

/-- What it adds to `receive_ns` for a frame that expects a reply. -/
def canReceiveNs (config : Configuration) (frame : CanFrame) : Nat :=
  let can := config.can frame.bus
  let dataBitrate := if can.bitrateSwitch then can.fastBitrate else can.slowBitrate
  let size := frame.expectedReplySize.toNat
  1000000000 * 32 / can.slowBitrate + 1000000000 * (size * 8 + 28) / dataBitrate +
    1000000000 * ((size + 5) * 8) / config.spiSpeedHz

/-- `min_rx_timeout_ns` -/
def minRxTimeoutNs (config : Configuration) (input : Input) : Nat :=
  let ns := fun bus : Int =>
    if (expecting input.txCan bus).length = 0 then 0
    else ((canPackets input.txCan bus).map (canSendNs config)).sum +
      ((expecting input.txCan bus).map (canReceiveNs config)).sum
  ([1, 2, 3, 4, 5].map ns).foldl max 0 + input.rxBaselineWaitNs

/-- `bus_replies`, at the beginning. -/
def expectedReplies (tx : List CanFrame) (p : Processor) : Nat :=
  (p.buses.map fun bus => (expecting tx bus).length).sum

/-- Whether a processor is asked in a cycle. -/
def asks (config : Configuration) (input : Input) (p : Processor) : Bool :=
  (expectedReplies input.txCan p ≠ 0 ∨ input.forceCanCheck &&& p.mask ≠ 0) ∧
    (p = .aux → config.enableAux)

/-- The variables of `ReadCan`. -/
structure Reading where
  input : Input
  /-- The size of `rx_can`. -/
  capacity : Nat
  rx : List RxFrame
  /-- How much of `rx` was there before anything was sent. -/
  stale : Nat
  busReplies : Processor → Int
  startNow : Int
  lastReply : Int

structure HatState where
  queue : Processor → List Entry := fun _ => []
  /-- The size of `tx_can_`. -/
  txSize : Nat := 0
  reading : Option Reading := none

inductive HatEvent where
  | arrive (p : Processor) (entry : Entry)
  /-- A cycle begins; `ReadCan` does at `startNow`. -/
  | cycle (input : Input) (startNow : Int)
  /-- The body of the loop of `ReadCan`: the times at which a processor has been read, and the time
  in the end. -/
  | poll (read : Processor → Int) (now : Int)

inductive HatOutput where
  | sent (transfers : List Transfer)
  /-- The cycle comes back with what is in its buffer. -/
  | cycled (reading : Reading) (now : Int)

/-- `FlushReadCan`, one processor. -/
def flushProcessor (config : Configuration) (input : Input) (capacity : Nat)
    (s : (Processor → List Entry) × List RxFrame) (p : Processor) :
    (Processor → List Entry) × List RxFrame :=
  if asks config input p then
    let (queue, rx) := readCanFrames p capacity (s.1 p) s.2
    (Function.update s.1 p queue, rx)
  else s

/-- One processor in the loop of `ReadCan`. -/
def readProcessor (config : Configuration) (read : Processor → Int)
    (s : (Processor → List Entry) × Reading) (p : Processor) :
    (Processor → List Entry) × Reading :=
  if asks config s.2.input p then
    let (queue, rx) := readCanFrames p s.2.capacity (s.1 p) s.2.rx
    let count := rx.length - s.2.rx.length
    (Function.update s.1 p queue,
      { s.2 with
        rx
        busReplies := Function.update s.2.busReplies p (s.2.busReplies p - count)
        lastReply := if count = 0 then s.2.lastReply else read p })
  else s

/-- `FlushReadCan` -/
def flushReadCan (config : Configuration) (input : Input) (capacity : Nat)
    (queue : Processor → List Entry) : (Processor → List Entry) × List RxFrame :=
  Processor.all.foldl (flushProcessor config input capacity) (queue, [])

/-- What the loop of `ReadCan` reads in one turn. -/
def readProcessors (config : Configuration) (read : Processor → Int)
    (queue : Processor → List Entry) (r : Reading) : (Processor → List Entry) × Reading :=
  Processor.all.foldl (readProcessor config read) (queue, r)

namespace Reading

/-- Nothing more fits. -/
def Full (r : Reading) : Prop := r.capacity ≤ r.rx.length

/-- All replies that are expected have been read, and nothing more is waited for. -/
def Complete (r : Reading) (now : Int) : Prop :=
  (∀ p ∈ Processor.all, r.busReplies p ≤ 0) ∧ r.input.minTxWaitNs < now - r.startNow ∧
    r.input.rxExtraWaitNs < now - r.lastReply

/-- The timeout has expired. -/
def Expired (config : Configuration) (r : Reading) (now : Int) : Prop :=
  r.input.timeoutNs < now - r.startNow ∧
    ¬ (now - r.startNow < r.input.minTxWaitNs ∨ now - r.startNow < minRxTimeoutNs config r.input ∨
      now - r.lastReply < r.input.rxExtraWaitNs)

instance (r : Reading) : Decidable r.Full := inferInstanceAs (Decidable (_ ≤ _))

instance (r : Reading) (now : Int) : Decidable (r.Complete now) :=
  inferInstanceAs (Decidable (_ ∧ _))

instance (config : Configuration) (r : Reading) (now : Int) : Decidable (r.Expired config now) :=
  inferInstanceAs (Decidable (_ ∧ _))

end Reading

/-- The board and the thread in `CHILD_Cycle`. The buffer for replies is made before the frames are
there, for twice as many as were sent the last time. -/
def hat (config : Configuration) : Machine HatState HatEvent HatOutput :=
  fun s e =>
    match e with
    | .arrive p entry => ({ s with queue := Function.update s.queue p (s.queue p ++ [entry]) }, [])
    | .cycle input startNow =>
      match s.reading with
      | some _ => (s, [])  -- The thread is in a cycle.
      | none =>
        let capacity := max 5 (s.txSize * 2)
        let (queue, rx) := flushReadCan config input capacity s.queue
        ({ queue
           txSize := input.txCan.length
           reading := some
            { input, capacity, rx
              stale := rx.length
              busReplies := fun p => expectedReplies input.txCan p
              startNow
              lastReply := startNow } },
          [.sent (sendCan config.enableAux input.txCan)])
    | .poll read now =>
      match s.reading with
      | none => (s, [])
      | some r =>
        let (queue, r) := readProcessors config read s.queue r
        if r.Full ∨ r.Complete now ∨ r.Expired config now then
          ({ s with queue, reading := none }, [.cycled r now])
        else ({ s with queue, reading := some r }, [])

variable (config : Configuration) {s : HatState}

theorem hat_cycle (hreading : s.reading = none) (input : Input) (startNow : Int) :
    hat config s (.cycle input startNow) =
      ({ queue := (flushReadCan config input (max 5 (s.txSize * 2)) s.queue).1
         txSize := input.txCan.length
         reading := some
          { input
            capacity := max 5 (s.txSize * 2)
            rx := (flushReadCan config input (max 5 (s.txSize * 2)) s.queue).2
            stale := (flushReadCan config input (max 5 (s.txSize * 2)) s.queue).2.length
            busReplies := fun p => expectedReplies input.txCan p
            startNow
            lastReply := startNow } },
        [.sent (sendCan config.enableAux input.txCan)]) := by
  simp [hat, hreading]

theorem hat_cycle_busy {r : Reading} (hreading : s.reading = some r) (input : Input)
    (startNow : Int) : hat config s (.cycle input startNow) = (s, []) := by
  simp [hat, hreading]

theorem hat_poll {r : Reading} (hreading : s.reading = some r) (read : Processor → Int)
    (now : Int) :
    hat config s (.poll read now) =
      if (readProcessors config read s.queue r).2.Full ∨
          (readProcessors config read s.queue r).2.Complete now ∨
          (readProcessors config read s.queue r).2.Expired config now then
        ({ s with queue := (readProcessors config read s.queue r).1, reading := none },
          [.cycled (readProcessors config read s.queue r).2 now])
      else
        ({ s with
            queue := (readProcessors config read s.queue r).1
            reading := some (readProcessors config read s.queue r).2 }, []) := by
  simp [hat, hreading]

theorem hat_poll_idle (hreading : s.reading = none) (read : Processor → Int) (now : Int) :
    hat config s (.poll read now) = (s, []) := by
  simp [hat, hreading]

/-! ## One reading -/

theorem isFrom_rxFrame {p : Processor} {entry : Entry} {frame : RxFrame}
    (h : rxFrame p entry = some frame) (q : Processor) : frame.isFrom q = decide (p = q) := by
  unfold rxFrame at h
  split at h
  · split at h
    · cases h
    · rename_i head _ _ _ _ _ _ _
      obtain rfl := Option.some.inj h
      by_cases hbit : head &&& 0x80 = 0 <;> cases p <;> cases q <;>
        simp [RxFrame.isFrom, Processor.busStart, hbit]
  · cases h

/-- The frames that entries of a processor stand for. -/
def frames (p : Processor) (entries : List Entry) : List RxFrame := entries.filterMap (rxFrame p)

theorem filter_frames (p : Processor) (entries : List Entry) :
    (frames p entries).filter (RxFrame.isFrom p) = frames p entries := by
  apply List.filter_eq_self.mpr
  intro frame hframe
  obtain ⟨entry, -, h⟩ := List.mem_filterMap.mp hframe
  simp [isFrom_rxFrame h]

theorem filter_frames_of_ne {p q : Processor} (hne : p ≠ q) (entries : List Entry) :
    (frames p entries).filter (RxFrame.isFrom q) = [] := by
  apply List.filter_eq_nil_iff.mpr
  intro frame hframe
  obtain ⟨entry, -, h⟩ := List.mem_filterMap.mp hframe
  simp [isFrom_rxFrame h, hne]

theorem mem_frames_isFrom {p : Processor} {entries : List Entry} {frame : RxFrame}
    (h : frame ∈ frames p entries) : frame.isFrom p := by
  obtain ⟨entry, -, hframe⟩ := List.mem_filterMap.mp h
  simp [isFrom_rxFrame hframe]

/-- Frames that each come from a processor are those of all processors. -/
theorem length_eq_sum {rx : List RxFrame}
    (h : ∀ frame ∈ rx, ∃ p entries, frame ∈ frames p entries) :
    rx.length = (Processor.all.map fun p => (rx.filter (RxFrame.isFrom p)).length).sum := by
  induction rx with
  | nil => rfl
  | cons frame rx ih =>
    obtain ⟨p, entries, hframe⟩ := h frame List.mem_cons_self
    obtain ⟨entry, -, hentry⟩ := List.mem_filterMap.mp hframe
    have hfrom := isFrom_rxFrame hentry
    rw [List.length_cons, ih fun f hf => h f (List.mem_cons_of_mem _ hf)]
    simp only [Processor.all, List.map_cons, List.map_nil, List.sum_cons, List.sum_nil,
      List.filter_cons, hfrom]
    cases p <;> simp <;> omega

theorem readEntries_spec (p : Processor) (capacity : Nat) (entries : List Entry)
    (rx : List RxFrame) :
    ∃ taken, entries = taken ++ (readEntries p capacity entries rx).1 ∧
      (readEntries p capacity entries rx).2 = rx ++ frames p taken ∧
      (readEntries p capacity entries rx).2.length ≤ max capacity rx.length := by
  induction entries generalizing rx with
  | nil => exact ⟨[], by simp [readEntries, frames]⟩
  | cons entry entries ih =>
    rw [readEntries]
    split
    · exact ⟨[], by simp [frames]⟩
    · rename_i hroom
      obtain ⟨taken, hentries, hrx, hlength⟩ := ih (rx ++ (rxFrame p entry).toList)
      refine ⟨entry :: taken, by rw [List.cons_append, ← hentries], ?_, ?_⟩
      · rw [hrx, frames, frames, List.filterMap_cons]
        cases rxFrame p entry <;> simp
      · refine hlength.trans ?_
        rw [List.length_append]
        have hone : (rxFrame p entry).toList.length ≤ 1 := by cases rxFrame p entry <;> simp
        omega

/-- **`ReadCanFrames` takes entries off the front of the queue**, and puts their frames behind what
is in the buffer, which does not grow beyond its size. -/
theorem readCanFrames_spec (p : Processor) (capacity : Nat) (queue : List Entry)
    (rx : List RxFrame) :
    ∃ taken, queue = taken ++ (readCanFrames p capacity queue rx).1 ∧
      (readCanFrames p capacity queue rx).2 = rx ++ frames p taken ∧
      (readCanFrames p capacity queue rx).2.length ≤ max capacity rx.length := by
  rw [readCanFrames]
  split
  · exact ⟨[], by simp [frames]⟩
  · obtain ⟨taken, hentries, hrx, hlength⟩ := readEntries_spec p capacity (queue.take 6) rx
    refine ⟨taken, ?_, hrx, hlength⟩
    dsimp only
    rw [← List.append_assoc, ← hentries, List.take_append_drop]

/-! ## What is on its way -/

/-- The frames of a processor that have not reached a caller yet: in the buffer, then in the
queue. -/
def pending (p : Processor) (queue : Processor → List Entry) (rx : List RxFrame) : List RxFrame :=
  rx.filter (RxFrame.isFrom p) ++ frames p (queue p)

/-- Frames that are taken off a queue go behind those in the buffer. -/
theorem pending_read (p q : Processor) (capacity : Nat) (queue : Processor → List Entry)
    (rx : List RxFrame) :
    pending p (Function.update queue q (readCanFrames q capacity (queue q) rx).1)
        (readCanFrames q capacity (queue q) rx).2 = pending p queue rx := by
  obtain ⟨taken, hqueue, hrx, -⟩ := readCanFrames_spec q capacity (queue q) rx
  unfold pending
  rw [hrx, List.filter_append, List.append_assoc]
  congr 1
  by_cases hsame : q = p
  · subst hsame
    rw [Function.update_self, filter_frames, frames, frames, ← List.filterMap_append, ← hqueue,
      frames]
  · rw [Function.update_of_ne (Ne.symm hsame), filter_frames_of_ne hsame, List.nil_append]

theorem pending_flush (input : Input) (capacity : Nat) (p : Processor)
    (queue : Processor → List Entry) :
    pending p (flushReadCan config input capacity queue).1
        (flushReadCan config input capacity queue).2 = pending p queue [] := by
  have hfold : ∀ (qs : List Processor) (s : (Processor → List Entry) × List RxFrame),
      pending p (qs.foldl (flushProcessor config input capacity) s).1
        (qs.foldl (flushProcessor config input capacity) s).2 = pending p s.1 s.2 := by
    intro qs
    induction qs with
    | nil => intro s; rfl
    | cons q qs ih =>
      intro s
      rw [List.foldl_cons, ih, flushProcessor]
      split
      · apply pending_read
      · rfl
  rw [flushReadCan]
  exact hfold Processor.all (queue, [])

theorem pending_poll (read : Processor → Int) (p : Processor) (queue : Processor → List Entry)
    (r : Reading) :
    pending p (readProcessors config read queue r).1 (readProcessors config read queue r).2.rx =
      pending p queue r.rx := by
  have hfold : ∀ (qs : List Processor) (s : (Processor → List Entry) × Reading),
      pending p (qs.foldl (readProcessor config read) s).1
        (qs.foldl (readProcessor config read) s).2.rx = pending p s.1 s.2.rx := by
    intro qs
    induction qs with
    | nil => intro s; rfl
    | cons q qs ih =>
      intro s
      rw [List.foldl_cons, ih, readProcessor]
      split
      · apply pending_read
      · rfl
  rw [readProcessors]
  exact hfold Processor.all (queue, r)

/-- The buffer of the cycle that goes on. -/
def HatState.buffer (s : HatState) : List RxFrame :=
  match s.reading with
  | some r => r.rx
  | none => []

/-- The frames of a processor that an event brings. -/
def HatEvent.arriving (p : Processor) : HatEvent → List RxFrame
  | .arrive q entry => if q = p then frames p [entry] else []
  | _ => []

/-- The frames of a processor that an output gives to a caller. -/
def HatOutput.delivered (p : Processor) : HatOutput → List RxFrame
  | .cycled r _ => r.rx.filter (RxFrame.isFrom p)
  | .sent _ => []

theorem hat_conserves (p : Processor) (s : HatState) (e : HatEvent) :
    (hat config s e).2.flatMap (HatOutput.delivered p) ++
        pending p (hat config s e).1.queue (hat config s e).1.buffer =
      pending p s.queue s.buffer ++ e.arriving p := by
  cases e with
  | arrive q entry =>
    show pending p (Function.update s.queue q (s.queue q ++ [entry])) s.buffer = _
    unfold pending HatEvent.arriving
    by_cases hsame : q = p
    · subst hsame
      simp [frames, List.append_assoc]
    · simp [hsame, Function.update_of_ne (Ne.symm hsame)]
  | cycle input startNow =>
    cases hreading : s.reading with
    | some r =>
      rw [hat_cycle_busy config hreading]
      simp [HatEvent.arriving]
    | none =>
      have hflush := pending_flush config input (max 5 (s.txSize * 2)) p s.queue
      rw [hat_cycle config hreading]
      simpa [HatState.buffer, hreading, HatEvent.arriving, HatOutput.delivered] using hflush
  | poll read now =>
    cases hreading : s.reading with
    | none =>
      rw [hat_poll_idle config hreading]
      simp [HatEvent.arriving]
    | some r =>
      have hpoll := pending_poll config read p s.queue r
      rw [hat_poll config hreading]
      split
      · -- The cycle comes back: what was in its buffer is the caller's.
        simpa [HatState.buffer, hreading, HatEvent.arriving, HatOutput.delivered, pending]
          using hpoll
      · simpa [HatState.buffer, hreading, HatEvent.arriving] using hpoll

/-- **No frame is lost, doubled or overtaken.** In every run the frames that cycles came back with
are, for each processor, those that arrived at it, in order, up to the ones that wait in the buffer
of the current cycle and in the queue. -/
theorem received_once (p : Processor) (es : List HatEvent) :
    ((hat config).trace {} es).flatMap (HatOutput.delivered p) ++
        pending p ((hat config).after {} es).queue ((hat config).after {} es).buffer =
      es.flatMap (HatEvent.arriving p) :=
  @Machine.conserved _ _ _ (hat config) _ (fun s => pending p s.queue s.buffer)
    (HatEvent.arriving p) (HatOutput.delivered p) (hat_conserves config p) {} es

/-- What a cycle comes back with has been on its way or has arrived. -/
theorem delivered_sublist (p : Processor) (s : HatState) (es : List HatEvent) {r : Reading}
    {now : Int} (h : .cycled r now ∈ (hat config).trace s es) :
    (r.rx.filter (RxFrame.isFrom p)).Sublist
      (pending p s.queue s.buffer ++ es.flatMap (HatEvent.arriving p)) := by
  have hrun := @Machine.conserved _ _ _ (hat config) _ (fun s => pending p s.queue s.buffer)
    (HatEvent.arriving p) (HatOutput.delivered p) (hat_conserves config p) s es
  have hmem : HatOutput.delivered p (.cycled r now) ∈
      ((hat config).trace s es).map (HatOutput.delivered p) := List.mem_map_of_mem h
  rw [← hrun]
  apply List.Sublist.trans _ (List.sublist_append_left _ _)
  rw [List.flatMap_def]
  exact List.sublist_flatten_of_mem hmem

/-! ## Why a cycle comes back -/

/-- What holds in a cycle, between two polls. -/
structure Reading.Inv (r : Reading) : Prop where
  room : r.rx.length ≤ r.capacity
  least : 5 ≤ r.capacity
  stale_le : r.stale ≤ r.rx.length
  /-- What is still expected, after what was read behind the sending. -/
  replies : ∀ p, r.busReplies p = expectedReplies r.input.txCan p -
    ((r.rx.drop r.stale).filter (RxFrame.isFrom p)).length
  /-- Each frame has been read from a processor. -/
  known : ∀ frame ∈ r.rx, ∃ p entries, frame ∈ frames p entries

theorem Reading.Inv.readProcessor {read : Processor → Int}
    {s : (Processor → List Entry) × Reading} (h : s.2.Inv) (q : Processor) :
    (readProcessor config read s q).2.Inv := by
  unfold Pi3Hat.readProcessor
  split
  · obtain ⟨taken, -, hrx, hlength⟩ := readCanFrames_spec q s.2.capacity (s.1 q) s.2.rx
    have hcount : (readCanFrames q s.2.capacity (s.1 q) s.2.rx).2.length - s.2.rx.length =
        (frames q taken).length := by
      rw [hrx, List.length_append]
      omega
    have hroom := h.room
    refine ⟨?_, h.least, ?_, ?_, ?_⟩
    · show (readCanFrames q s.2.capacity (s.1 q) s.2.rx).2.length ≤ s.2.capacity
      omega
    · apply h.stale_le.trans
      show s.2.rx.length ≤ (readCanFrames q s.2.capacity (s.1 q) s.2.rx).2.length
      rw [hrx, List.length_append]
      omega
    · intro p
      show Function.update s.2.busReplies q _ p = (expectedReplies s.2.input.txCan p : Int) -
        (((readCanFrames q s.2.capacity (s.1 q) s.2.rx).2.drop s.2.stale).filter
          (RxFrame.isFrom p)).length
      rw [hcount, hrx, List.drop_append_of_le_length h.stale_le, List.filter_append,
        List.length_append]
      have hreplies := h.replies p
      by_cases hsame : p = q
      · subst hsame
        rw [Function.update_self, filter_frames]
        omega
      · rw [Function.update_of_ne hsame, filter_frames_of_ne (Ne.symm hsame)]
        simpa using hreplies
    · intro frame hframe
      have hmem : frame ∈ (readCanFrames q s.2.capacity (s.1 q) s.2.rx).2 := hframe
      rw [hrx] at hmem
      rcases List.mem_append.mp hmem with hold | hnew
      · exact h.known frame hold
      · exact ⟨q, taken, hnew⟩
  · exact h

theorem Reading.Inv.poll {r : Reading} (h : r.Inv) (read : Processor → Int)
    (queue : Processor → List Entry) : (readProcessors config read queue r).2.Inv := by
  suffices hfold : ∀ (qs : List Processor) (s : (Processor → List Entry) × Reading), s.2.Inv →
      (qs.foldl (Pi3Hat.readProcessor config read) s).2.Inv from
    hfold Processor.all (queue, r) h
  intro qs
  induction qs with
  | nil => intro s hs; exact hs
  | cons q qs ih =>
    intro s hs
    apply ih
    exact hs.readProcessor config q

theorem flush_spec (input : Input) (capacity : Nat) (queue : Processor → List Entry) :
    (flushReadCan config input capacity queue).2.length ≤ capacity ∧
      ∀ frame ∈ (flushReadCan config input capacity queue).2,
        ∃ p entries, frame ∈ frames p entries := by
  suffices hfold : ∀ (qs : List Processor) (s : (Processor → List Entry) × List RxFrame),
      s.2.length ≤ capacity ∧ (∀ frame ∈ s.2, ∃ p entries, frame ∈ frames p entries) →
      (qs.foldl (flushProcessor config input capacity) s).2.length ≤ capacity ∧
        ∀ frame ∈ (qs.foldl (flushProcessor config input capacity) s).2,
          ∃ p entries, frame ∈ frames p entries from
    hfold Processor.all (queue, []) ⟨Nat.zero_le _, by simp⟩
  intro qs
  induction qs with
  | nil => intro s hs; exact hs
  | cons q qs ih =>
    intro s hs
    apply ih
    rw [flushProcessor]
    split
    · obtain ⟨taken, -, hrx, hlength⟩ := readCanFrames_spec q capacity (s.1 q) s.2
      refine ⟨hlength.trans (by omega), ?_⟩
      intro frame hframe
      have hmem : frame ∈ (readCanFrames q capacity (s.1 q) s.2).2 := hframe
      rw [hrx] at hmem
      rcases List.mem_append.mp hmem with hold | hnew
      · exact hs.2 frame hold
      · exact ⟨q, taken, hnew⟩
    · exact hs

def HatState.Inv (s : HatState) : Prop := ∀ r, s.reading = some r → r.Inv

theorem HatState.Inv.step (h : s.Inv) (e : HatEvent) : (hat config s e).1.Inv := by
  cases e with
  | arrive q entry => exact h
  | cycle input startNow =>
    cases hreading : s.reading with
    | some r =>
      rw [hat_cycle_busy config hreading]
      exact h
    | none =>
      rw [hat_cycle config hreading]
      intro r hr
      obtain rfl := Option.some.inj hr
      obtain ⟨hlength, hknown⟩ := flush_spec config input (max 5 (s.txSize * 2)) s.queue
      exact ⟨hlength, Nat.le_max_left _ _, Nat.le_refl _, fun p => by simp, hknown⟩
  | poll read now =>
    cases hreading : s.reading with
    | none =>
      rw [hat_poll_idle config hreading]
      exact h
    | some r =>
      rw [hat_poll config hreading]
      split
      · intro r' hr'
        cases hr'
      · intro r' hr'
        obtain rfl := Option.some.inj hr'
        exact (h r hreading).poll config read s.queue

theorem HatState.inv_after (es : List HatEvent) : ((hat config).after {} es).Inv := by
  apply Machine.invariant_after
  · intro r hr
    cases hr
  · intro s e hs
    exact hs.step config e

/-- What a step comes back with. -/
theorem hat_cycled {e : HatEvent} {r : Reading} {now : Int}
    (h : .cycled r now ∈ (hat config s e).2) :
    ∃ read r', e = .poll read now ∧ s.reading = some r' ∧
      r = (readProcessors config read s.queue r').2 ∧
      (r.Full ∨ r.Complete now ∨ r.Expired config now) := by
  cases e with
  | arrive q entry => cases h
  | cycle input startNow =>
    cases hreading : s.reading with
    | some r => simp [hat_cycle_busy config hreading] at h
    | none => simp [hat_cycle config hreading] at h
  | poll read time =>
    cases hreading : s.reading with
    | none => simp [hat_poll_idle config hreading] at h
    | some r' =>
      rw [hat_poll config hreading] at h
      split at h
      · rename_i hreturn
        simp only [List.mem_singleton, HatOutput.cycled.injEq] at h
        obtain ⟨hr, rfl⟩ := h
        rw [← hr] at hreturn
        exact ⟨read, r', rfl, rfl, hr, hreturn⟩
      · cases h

theorem cycled_inv {es : List HatEvent} {r : Reading} {now : Int}
    (h : .cycled r now ∈ (hat config).trace {} es) :
    r.Inv ∧ (r.Full ∨ r.Complete now ∨ r.Expired config now) := by
  obtain ⟨pre, e, post, -, hout⟩ := Machine.mem_trace.mp h
  obtain ⟨read, r', -, hreading, hr, hreturn⟩ := hat_cycled config hout
  have hinv := (HatState.inv_after config pre r' hreading).poll config read
    ((hat config).after {} pre).queue
  rw [← hr] at hinv
  exact ⟨hinv, hreturn⟩

/-- When the replies are complete, there are as many frames of a processor as were expected. -/
theorem Reading.Inv.expected_le {r : Reading} (h : r.Inv) {now : Int} (hcomplete : r.Complete now)
    (p : Processor) :
    expectedReplies r.input.txCan p ≤
      ((r.rx.drop r.stale).filter (RxFrame.isFrom p)).length := by
  have hzero := hcomplete.1 p (by cases p <;> decide)
  rw [h.replies p] at hzero
  omega

/-! ## That a cycle comes back -/

/-- What reading does to the variables of `ReadCan`, up to a time. -/
structure Reading.Reads (now : Int) (r r' : Reading) : Prop where
  input : r'.input = r.input
  capacity : r'.capacity = r.capacity
  startNow : r'.startNow = r.startNow
  length_le : r.rx.length ≤ r'.rx.length
  /-- Without a frame the last reply is the same. -/
  lastReply : r'.rx.length = r.rx.length → r'.lastReply = r.lastReply
  lastReply_le : r.lastReply ≤ now → r'.lastReply ≤ now

theorem Reading.Reads.trans {now : Int} {r r' r'' : Reading} (h : r.Reads now r')
    (h' : r'.Reads now r'') : r.Reads now r'' where
  input := h'.input.trans h.input
  capacity := h'.capacity.trans h.capacity
  startNow := h'.startNow.trans h.startNow
  length_le := h.length_le.trans h'.length_le
  lastReply := by
    intro hlength
    have hle := h.length_le
    have hle' := h'.length_le
    rw [h'.lastReply (by omega), h.lastReply (by omega)]
  lastReply_le hr := h'.lastReply_le (h.lastReply_le hr)

theorem Reading.reads_processor {read : Processor → Int} {now : Int} (hread : ∀ p, read p ≤ now)
    (s : (Processor → List Entry) × Reading) (q : Processor) :
    s.2.Reads now (readProcessor config read s q).2 := by
  unfold readProcessor
  split
  · obtain ⟨taken, -, hrx, -⟩ := readCanFrames_spec q s.2.capacity (s.1 q) s.2.rx
    have hlength : (readCanFrames q s.2.capacity (s.1 q) s.2.rx).2.length =
        s.2.rx.length + (frames q taken).length := by rw [hrx, List.length_append]
    refine ⟨rfl, rfl, rfl, ?_, ?_, ?_⟩
    · show s.2.rx.length ≤ (readCanFrames q s.2.capacity (s.1 q) s.2.rx).2.length
      omega
    · intro hsame
      have hcount : (readCanFrames q s.2.capacity (s.1 q) s.2.rx).2.length - s.2.rx.length = 0 :=
        Nat.sub_eq_zero_of_le (Nat.le_of_eq hsame)
      simp [hcount]
    · intro hlast
      dsimp only
      split
      · exact hlast
      · exact hread q
  · exact ⟨rfl, rfl, rfl, Nat.le_refl _, fun _ => rfl, fun h => h⟩

theorem Reading.reads_processors {read : Processor → Int} {now : Int} (hread : ∀ p, read p ≤ now)
    (queue : Processor → List Entry) (r : Reading) :
    r.Reads now (readProcessors config read queue r).2 := by
  suffices hfold : ∀ (qs : List Processor) (s : (Processor → List Entry) × Reading),
      s.2.Reads now (qs.foldl (readProcessor config read) s).2 from hfold Processor.all (queue, r)
  intro qs
  induction qs with
  | nil =>
    intro s
    exact ⟨rfl, rfl, rfl, Nat.le_refl _, fun _ => rfl, fun h => h⟩
  | cons q qs ih =>
    intro s
    exact (Reading.reads_processor config hread s q).trans (ih _)

def HatEvent.isPoll : HatEvent → Bool
  | .poll _ _ => true
  | _ => false

def HatEvent.isCycle : HatEvent → Bool
  | .cycle _ _ => true
  | _ => false

/-- Between cycles nothing comes back. -/
theorem trace_idle (hreading : s.reading = none) {es : List HatEvent}
    (hes : ∀ e ∈ es, e.isCycle = false) : (hat config).trace s es = [] := by
  induction es generalizing s with
  | nil => rfl
  | cons e es ih =>
    obtain ⟨he, hrest⟩ := List.forall_mem_cons.mp hes
    cases e with
    | arrive q entry =>
      exact ih (s := (hat config s (.arrive q entry)).1) hreading hrest
    | cycle input startNow => cases he
    | poll read now =>
      rw [Machine.trace_cons, hat_poll_idle config hreading]
      exact ih hreading hrest

/-- A cycle comes back with the frames it was given and the buffer it was given. -/
theorem cycled_of_cycle {r₀ : Reading} (hreading : s.reading = some r₀) {es : List HatEvent}
    (hes : ∀ e ∈ es, e.isCycle = false) {r : Reading} {now : Int}
    (h : .cycled r now ∈ (hat config).trace s es) :
    r.input = r₀.input ∧ r.capacity = r₀.capacity := by
  induction es generalizing s r₀ with
  | nil => cases h
  | cons e es ih =>
    obtain ⟨he, hrest⟩ := List.forall_mem_cons.mp hes
    cases e with
    | arrive q entry =>
      exact ih (s := (hat config s (.arrive q entry)).1) hreading hrest h
    | cycle input startNow => cases he
    | poll read time =>
      have hread : ∀ p, read p ≤ max (read .can1) (max (read .can2) (read .aux)) := by
        intro p
        cases p <;> simp
      have hreads := Reading.reads_processors config hread s.queue r₀
      rw [Machine.trace_cons, hat_poll config hreading] at h
      split at h
      · rw [trace_idle config rfl hrest, List.append_nil, List.mem_singleton] at h
        obtain ⟨rfl, -⟩ := HatOutput.cycled.inj h
        exact ⟨hreads.input, hreads.capacity⟩
      · obtain ⟨hinput, hcapacity⟩ := ih rfl hrest h
        exact ⟨hinput.trans hreads.input, hcapacity.trans hreads.capacity⟩

/-- The polls are all behind the time that a cycle was given, and none is sooner than
`rx_extra_wait_ns` after the one before it. -/
def Late (config : Configuration) (input : Input) (startNow : Int) : Int → List HatEvent → Prop
  | _, [] => True
  | last, .poll read now :: es =>
    (∀ p, read p ≤ now) ∧ last + input.rxExtraWaitNs ≤ now ∧ input.timeoutNs < now - startNow ∧
      input.minTxWaitNs ≤ now - startNow ∧ minRxTimeoutNs config input ≤ now - startNow ∧
      Late config input startNow now es
  | last, .arrive _ _ :: es => Late config input startNow last es
  | last, .cycle _ _ :: es => Late config input startNow last es

theorem cycled_of_late {r : Reading} (hreading : s.reading = some r) {last : Int}
    (hlast : r.lastReply ≤ last) {es : List HatEvent}
    (hlate : Late config r.input r.startNow last es)
    (hpolls : r.capacity - r.rx.length < es.countP HatEvent.isPoll) :
    ∃ r' now, .cycled r' now ∈ (hat config).trace s es := by
  induction es generalizing s r last with
  | nil => simp at hpolls
  | cons e es ih =>
    cases e with
    | arrive q entry =>
      obtain ⟨r', now, hmem⟩ :=
        ih (s := (hat config s (.arrive q entry)).1) hreading hlast hlate
          (by simpa [HatEvent.isPoll] using hpolls)
      exact ⟨r', now, List.mem_append_right _ hmem⟩
    | cycle input startNow =>
      have hsame := hat_cycle_busy config hreading input startNow
      obtain ⟨r', now, hmem⟩ := ih hreading hlast hlate (by simpa [HatEvent.isPoll] using hpolls)
      refine ⟨r', now, ?_⟩
      rw [Machine.trace_cons, hsame]
      exact hmem
    | poll read now =>
      obtain ⟨hread, hextra, htimeout, hminTx, hminRx, hrest⟩ := hlate
      have hreads := Reading.reads_processors config hread s.queue r
      have hstep := hat_poll config hreading read now
      rw [Machine.trace_cons, hstep]
      split
      · exact ⟨_, now, List.mem_append_left _ List.mem_cons_self⟩
      · rename_i hstay
        rw [not_or, not_or] at hstay
        obtain ⟨hfull, -, hexpired⟩ := hstay
        -- Nothing read would have been a reason to come back.
        have hgrows : r.rx.length < (readProcessors config read s.queue r).2.rx.length := by
          apply Nat.lt_of_le_of_ne hreads.length_le
          intro hlength
          apply hexpired
          have hsame := hreads.lastReply hlength.symm
          unfold Reading.Expired
          rw [hreads.input, hreads.startNow, hsame]
          omega
        have hroom : (readProcessors config read s.queue r).2.rx.length < r.capacity := by
          rw [← hreads.capacity]
          exact Nat.lt_of_not_le hfull
        have hcount : (HatEvent.poll read now :: es).countP HatEvent.isPoll =
            es.countP HatEvent.isPoll + 1 := List.countP_cons_of_pos rfl
        obtain ⟨r', now', hmem⟩ := ih
          (s := { s with
            queue := (readProcessors config read s.queue r).1
            reading := some (readProcessors config read s.queue r).2 }) rfl
          (hreads.lastReply_le (by omega))
          (by rw [hreads.input, hreads.startNow]; exact hrest)
          (by rw [hreads.capacity]; omega)
        exact ⟨r', now', List.mem_append_right _ hmem⟩

/-! ## Every run -/

/-- A cycle with one frame, that expects a reply. -/
def oneFrame : Input := { txCan := [⟨0x8001, Moteus.CanData.empty, 1, true, 22⟩] }

/-- The reply arrives when the time is over, and another one behind it. -/
def lateReplies : List HatEvent :=
  .arrive .can1 ⟨[1, 0, 0, 1, 0], by decide, by decide⟩ :: .poll (fun _ => 2000000) 2000000 ::
    .arrive .can1 ⟨[1, 0, 0, 1, 0], by decide, by decide⟩ ::
    List.replicate 5 (.poll (fun _ => 3000000) 3000000)

theorem late_lateReplies : Late {} oneFrame 0 0 lateReplies := by
  simp [Late, lateReplies, List.replicate, minRxTimeoutNs, expecting, canPackets, canSendNs,
    canReceiveNs, oneFrame, Moteus.CanData.empty]

/-- **The buffer has room, and a cycle has a reason to come back.** Whatever arrived and when, the
buffer never holds more than it has room for, and when a cycle comes back there is no room left in
it, or from each processor there are as many frames in it as replies were expected, read after the
frames were sent, or the time it was given is over. -/
theorem cycled_complete (es : List HatEvent) :
    (∀ r, ((hat config).after {} es).reading = some r →
      5 ≤ r.capacity ∧ r.rx.length ≤ r.capacity) ∧
    ∀ (r : Reading) (now : Int), .cycled r now ∈ (hat config).trace {} es →
      5 ≤ r.capacity ∧ r.rx.length ≤ r.capacity ∧
        (r.rx.length = r.capacity ∨
          (∀ p, expectedReplies r.input.txCan p ≤
            ((r.rx.drop r.stale).filter (RxFrame.isFrom p)).length) ∨
          (r.input.timeoutNs < now - r.startNow ∧ r.input.minTxWaitNs ≤ now - r.startNow ∧
            minRxTimeoutNs config r.input ≤ now - r.startNow)) := by
  constructor
  · intro r hreading
    have hinv := HatState.inv_after config es r hreading
    exact ⟨hinv.least, hinv.room⟩
  intro r now h
  obtain ⟨hinv, hreturn⟩ := cycled_inv config h
  refine ⟨hinv.least, hinv.room, ?_⟩
  rcases hreturn with hfull | hcomplete | hexpired
  · left
    exact Nat.le_antisymm hinv.room hfull
  · right
    left
    intro p
    exact hinv.expected_le hcomplete p
  · right
    right
    obtain ⟨htimeout, hwaits⟩ := hexpired
    omega

theorem cycled_complete_one :
    ∃ (r : Reading) (now : Int),
      .cycled r now ∈ (hat {}).trace {} (.cycle oneFrame 0 :: lateReplies) ∧
        5 ≤ r.capacity ∧ r.rx.length ≤ r.capacity := by
  have hcycled : ∃ r now, .cycled r now ∈
      (hat {}).trace ((hat {}).after {} [.cycle oneFrame 0]) lateReplies :=
    cycled_of_late {} rfl (Int.le_refl _) late_lateReplies (by decide)
  obtain ⟨r, now, hmem⟩ := hcycled
  have hrun : .cycled r now ∈ (hat {}).trace {} (.cycle oneFrame 0 :: lateReplies) :=
    List.mem_append_right _ hmem
  obtain ⟨hleast, hroom, -⟩ := (cycled_complete {} _).2 r now hrun
  exact ⟨r, now, hrun, hleast, hroom⟩

end Pi3Hat
