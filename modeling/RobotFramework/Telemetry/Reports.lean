import RobotFramework.Pi3Hat.Receive
import RobotFramework.Telemetry.Routing

/-!
# Which reply is reported

A reply that comes too late for its own cycle waits on the board and comes back with a later one,
which begins with what is there already. A cycle may so have several replies of one motor, of which
`Telemetry::cycle` keeps the last. As the board gives its frames in the order in which they arrived,
that is the newest one (`reported_newest`).
-/

namespace RobotFramework

open Cxx Moteus Pi3Hat Reactive

namespace Telemetry

/-- What a map built by insertions has under a key is what was inserted last under it. -/
theorem getElem?_foldl_insert {α β : Type} (key : α → Int) (value : α → β) (l : List α) (k : Int) :
    (l.foldl (fun m a => m.insert (key a) (value a)) (∅ : Std.TreeMap Int β))[k]? =
      (l.filter fun a => key a = k).getLast?.map value := by
  induction l using List.reverseRecOn with
  | nil => simp
  | append_singleton l a ih =>
    rw [List.foldl_append, List.foldl_cons, List.foldl_nil, Std.TreeMap.getElem?_insert,
      List.filter_append]
    by_cases hkey : key a = k
    · simp [hkey]
    · have hne : ¬ compare (key a) k = .eq := fun h => hkey (Std.LawfulEqCmp.eq_of_compare h)
      simp [hkey, hne, ih]

/-- The reply that `CHILD_Cycle` makes of a frame. -/
def reply (frame : RxFrame) : RawReply := canReply frame.id frame.data

/-- The frames of a motor. -/
def ofMotor (id : Int) (frames : List RxFrame) : List RxFrame :=
  frames.filter fun frame => (reply frame).source = id

theorem ofMotor_append (id : Int) (l l' : List RxFrame) :
    ofMotor id (l ++ l') = ofMotor id l ++ ofMotor id l' :=
  List.filter_append l l'

/-- The frames of a motor all come from the processor it is at. -/
theorem ofMotor_filter {id : Int} {p : Processor} {rx : List RxFrame}
    (h : ∀ frame ∈ rx, (reply frame).source = id → frame.isFrom p) :
    ofMotor id (rx.filter (RxFrame.isFrom p)) = ofMotor id rx := by
  unfold ofMotor
  rw [List.filter_filter]
  apply List.filter_congr
  intro frame hframe
  by_cases hid : (reply frame).source = id
  · simp [hid, h frame hframe hid]
  · simp [hid]

variable {K : Type} [Field K] [LinearOrder K] [FloorRing K] [Libm K]

/-- **A cycle reports the newest reply of a motor** of all that have been read in any cycle so far,
provided that it has one at all: a reply that was late is never reported in place of a newer one. -/
theorem reported_newest (config : Configuration) (p : Processor) {es : List HatEvent} {e : HatEvent}
    {r : Reading} {now : Int}
    (hcycled : .cycled r now ∈ (hat config ((hat config).after {} es) e).2) {id : Int}
    (hid : ∀ frame ∈ r.rx, (reply frame).source = id → frame.isFrom p) :
    ∃ (data : Std.TreeMap Int (MotorTelemetry K)) (read : List RxFrame),
      rawServoData ∅ (r.rx.map reply) = some data ∧
      (es ++ [e]).flatMap (HatEvent.arriving p) =
        read ++ frames p (((hat config).after {} (es ++ [e])).queue p) ∧
      data[id]? =
        if ofMotor id r.rx = [] then none
        else (ofMotor id read).getLast?.map fun frame => parseReply (decodeReply (reply frame)) := by
  obtain ⟨poll, r', rfl, hreading, hr, hreturn⟩ := hat_cycled config hcycled
  have hstep : hat config ((hat config).after {} es) (.poll poll now) =
      ({ (hat config).after {} es with
          queue := (readProcessors config poll ((hat config).after {} es).queue r').1
          reading := none }, [.cycled r now]) := by
    rw [hat_poll config hreading, ← hr, if_pos hreturn]
  -- What has been read: what earlier cycles came back with, and behind it what this one does.
  have hread : (es ++ [HatEvent.poll poll now]).flatMap (HatEvent.arriving p) =
      ((hat config).trace {} es).flatMap (HatOutput.delivered p) ++
          r.rx.filter (RxFrame.isFrom p) ++
        frames p (((hat config).after {} (es ++ [HatEvent.poll poll now])).queue p) := by
    have hrun := @Machine.conserved _ _ _ (hat config) _ (fun s => pending p s.queue s.buffer)
      (HatEvent.arriving p) (HatOutput.delivered p) (hat_conserves config p) {}
      (es ++ [HatEvent.poll poll now])
    rw [Machine.trace_snoc, List.flatMap_append] at hrun
    rw [Machine.after_snoc, hstep] at hrun ⊢
    apply hrun.symm.trans
    simp [HatOutput.delivered, pending, HatState.buffer]
  refine ⟨_, _, rawServoData_eq _ _, hread, ?_⟩
  have hmap := getElem?_foldl_insert (fun frame => (decodeReply (K := K) (reply frame)).source)
    (fun frame => parseReply (K := K) (decodeReply (reply frame))) r.rx id
  rw [List.map_map, List.foldl_map]
  apply hmap.trans
  rw [ofMotor_append, ofMotor_filter hid]
  split
  · rename_i hnone
    have hfilter : (r.rx.filter
        fun frame => (decodeReply (K := K) (reply frame)).source = id) = [] := hnone
    rw [hfilter]
    rfl
  · rename_i hsome
    rw [List.getLast?_append_of_ne_nil _ hsome]
    rfl

/-- A reply of the first motor, with its mode. -/
def modeEntry (mode : UInt8) : Entry :=
  ⟨[0x01, 0x00, 0x00, 0x01, 0x00, 0x21, 0x00, mode], by simp, by simp⟩

/-- One reply is late, the other one belongs to the cycle. -/
def lateRun : List HatEvent :=
  [.arrive .can1 (modeEntry 5), .cycle { txCan := [], forceCanCheck := 2 } 0,
    .arrive .can1 (modeEntry 10)]

theorem lateRun_reading : ((hat {}).after {} lateRun).reading.isSome := by decide +kernel

theorem lateRun_cycled :
    ∃ r : Reading, .cycled r 2000000 ∈
        (hat {} ((hat {}).after {} lateRun) (.poll (fun _ => 1000000) 2000000)).2 ∧
      r.rx = [⟨1, 0x100, [0x21, 0x00, 5]⟩, ⟨1, 0x100, [0x21, 0x00, 10]⟩] := by
  have hreading := (Option.some_get lateRun_reading).symm
  refine ⟨(readProcessors {} (fun _ => 1000000) ((hat {}).after {} lateRun).queue
    (((hat {}).after {} lateRun).reading.get lateRun_reading)).2, ?_, by decide +kernel⟩
  rw [hat_poll {} hreading, if_pos (Or.inr (Or.inl (by decide +kernel)))]
  exact List.mem_cons_self

theorem reported_newest_late :
    ∃ (r : Reading) (data : Std.TreeMap Int (MotorTelemetry ℝ)),
      .cycled r 2000000 ∈
        (hat {} ((hat {}).after {} lateRun) (.poll (fun _ => 1000000) 2000000)).2 ∧
      rawServoData ∅ (r.rx.map reply) = some data ∧
      data[(1 : Int)]? = some (parseReply (decodeReply ⟨1, [0x21, 0x00, 10]⟩)) := by
  obtain ⟨r, hmem, hrx⟩ := lateRun_cycled
  have hid : ∀ frame ∈ r.rx, (reply frame).source = 1 → frame.isFrom .can1 := by
    rw [hrx]
    decide
  obtain ⟨data, read, hdata, hread, hget⟩ := reported_newest (K := ℝ) {} .can1 hmem hid
  have harriving : (lateRun ++ [HatEvent.poll (fun _ => 1000000) 2000000]).flatMap
      (HatEvent.arriving .can1) =
      [⟨1, 0x100, [0x21, 0x00, 5]⟩, ⟨1, 0x100, [0x21, 0x00, 10]⟩] := by decide +kernel
  have hqueue : frames .can1 (((hat {}).after {}
      (lateRun ++ [HatEvent.poll (fun _ => 1000000) 2000000])).queue .can1) = [] := by decide +kernel
  rw [harriving, hqueue, List.append_nil] at hread
  refine ⟨r, data, hmem, hdata, ?_⟩
  rw [hget, ← hread, hrx]
  rfl

/-! ## A cycle that is not out of time -/

/-- `tx_can_` in a cycle. -/
def cycleTx (servoMap : Std.TreeMap Int Int) (velocityMap : Std.TreeMap Int K) : List CanFrame :=
  (servoMap.toList.map fun p => cycleFrame velocityMap p.1 p.2).map (canFrame servoMap)

/-- What the devices behind a processor answer to the frames of a cycle. -/
def answers (enableAux : Bool) (devices : Int → Int → Option Values) (padding : Nat)
    (tx : List CanFrame) (p : Processor) : List (BitVec 32 × List UInt8) :=
  p.buses.flatMap fun bus =>
    (received bus (sendCan enableAux tx)).filterMap (deviceAnswer (devices bus) padding)

theorem mem_busOrder {p : Processor} {bus : Int} (h : bus ∈ p.buses) : bus ∈ busOrder := by
  cases p <;> simp [Processor.buses] at h <;> simp [busOrder] <;> omega

/-- As many replies are expected on a bus as there are motors. -/
theorem length_expecting {enableAux : Bool} {servoMap : Std.TreeMap Int Int}
    (hmap : OnBoard enableAux servoMap) (velocityMap : Std.TreeMap Int K) (bus : Int) :
    (expecting (cycleTx servoMap velocityMap) bus).length =
      (servoMap.toList.filter (·.2 = bus)).length := by
  unfold expecting cycleTx
  rw [List.map_map, List.filter_map, List.length_map]
  congr 1
  apply List.filter_congr
  intro p hp
  have hbus : (canFrame servoMap (cycleFrame velocityMap p.1 p.2)).bus = p.2 :=
    canFrame_bus hmap (Std.TreeMap.mem_toList_iff_getElem?_eq_some.mp hp) _
  have hreply : (canFrame servoMap (cycleFrame velocityMap p.1 p.2)).expectReply = true := rfl
  simp [hbus, hreply]

/-- Every motor that is there answers. -/
theorem length_answers {enableAux : Bool} {servoMap : Std.TreeMap Int Int}
    (hmap : OnBoard enableAux servoMap) (velocityMap : Std.TreeMap Int K)
    {devices : Int → Int → Option Values}
    (hdevices : ∀ id bus : Int, servoMap[id]? = some bus → (devices bus id).isSome) (padding : Nat)
    (p : Processor) :
    (answers enableAux devices padding (cycleTx servoMap velocityMap) p).length =
      expectedReplies (cycleTx servoMap velocityMap) p := by
  unfold answers expectedReplies
  rw [List.length_flatMap]
  congr 1
  apply List.map_congr_left
  intro bus hbus
  have hreceived := received_servoMap hmap velocityMap (mem_busOrder hbus)
  rw [length_expecting hmap, cycleTx, hreceived, List.filterMap_map,
    List.filterMap_length_eq_length]
  intro q hq
  obtain ⟨hin, hsame⟩ := List.mem_filter.mp hq
  have hentry := Std.TreeMap.mem_toList_iff_getElem?_eq_some.mp hin
  obtain rfl : q.2 = bus := by simpa using hsame
  have hanswer := deviceAnswer_cycle servoMap velocityMap (devices q.2) padding
    (hmap q.1 q.2 hentry).1 q.2
  have hsome := congrArg Option.isSome hanswer
  rw [Option.isSome_map, Option.isSome_map, hdevices q.1 q.2 hentry] at hsome
  exact hsome

theorem mem_answers {enableAux : Bool} {servoMap : Std.TreeMap Int Int}
    (velocityMap : Std.TreeMap Int K) (devices : Int → Int → Option Values)
    (padding : Nat) (reply : RawReply) :
    (∃ p, ∃ answer ∈ answers enableAux devices padding (cycleTx servoMap velocityMap) p,
        canReply answer.1 answer.2 = reply) ↔
      reply ∈ hatReplies enableAux servoMap devices padding
        (servoMap.toList.map fun p => cycleFrame velocityMap p.1 p.2) := by
  unfold answers hatReplies cycleTx
  constructor
  · rintro ⟨p, answer, hanswer, rfl⟩
    obtain ⟨bus, hbus, hmem⟩ := List.mem_flatMap.mp hanswer
    exact List.mem_flatMap.mpr ⟨bus, mem_busOrder hbus, List.mem_map_of_mem hmem⟩
  · intro hreply
    obtain ⟨bus, hbus, hmem⟩ := List.mem_flatMap.mp hreply
    obtain ⟨answer, hanswer, rfl⟩ := List.mem_map.mp hmem
    have hprocessor : ∃ p : Processor, bus ∈ p.buses := by
      simp only [busOrder, List.mem_cons, List.not_mem_nil, or_false] at hbus
      rcases hbus with rfl | rfl | rfl | rfl | rfl
      · exact ⟨.can1, by decide⟩
      · exact ⟨.can2, by decide⟩
      · exact ⟨.aux, by decide⟩
      · exact ⟨.can1, by decide⟩
      · exact ⟨.can2, by decide⟩
    obtain ⟨p, hp⟩ := hprocessor
    exact ⟨p, answer, List.mem_flatMap.mpr ⟨bus, hp, hanswer⟩, rfl⟩

/-- The motors are on the buses of the processors. -/
theorem sum_expected {enableAux : Bool} {servoMap : Std.TreeMap Int Int}
    (hmap : OnBoard enableAux servoMap) (velocityMap : Std.TreeMap Int K) :
    (Processor.all.map (expectedReplies (cycleTx servoMap velocityMap))).sum =
      servoMap.toList.length := by
  have hbuses : ∀ q ∈ servoMap.toList, q.2 ∈ busOrder := fun q hq =>
    (hmap q.1 q.2 (Std.TreeMap.mem_toList_iff_getElem?_eq_some.mp hq)).2.1
  simp only [Processor.all, expectedReplies, Processor.buses, List.map_cons, List.map_nil,
    List.sum_cons, List.sum_nil, length_expecting hmap]
  revert hbuses
  induction servoMap.toList with
  | nil => simp
  | cons q l ih =>
    intro hbuses
    obtain ⟨hq, hrest⟩ := List.forall_mem_cons.mp hbuses
    have hl := ih hrest
    simp only [busOrder, List.mem_cons, List.not_mem_nil, or_false] at hq
    simp only [List.filter_cons, List.length_cons]
    rcases hq with hq | hq | hq | hq | hq <;> simp [hq] <;> omega

/-- The id and the data of a frame. -/
def content (frame : RxFrame) : BitVec 32 × List UInt8 := (frame.id, frame.data)

/-- A cycle that is not out of time has all the replies there are. -/
theorem rx_perm_answers {config : Configuration} {servoMap : Std.TreeMap Int Int}
    (hmap : OnBoard config.enableAux servoMap) (velocityMap : Std.TreeMap Int K)
    {devices : Int → Int → Option Values}
    (hdevices : ∀ id bus : Int, servoMap[id]? = some bus → (devices bus id).isSome) {padding : Nat}
    {r : Reading} (hinv : r.Inv) {now : Int} (hreturn : r.Full ∨ r.Complete now)
    (hinput : r.input.txCan = cycleTx servoMap velocityMap)
    (hroom : servoMap.toList.length ≤ r.capacity)
    (hanswers : ∀ p, ((r.rx.filter (RxFrame.isFrom p)).map content).Subperm
      (answers config.enableAux devices padding r.input.txCan p)) (p : Processor) :
    ((r.rx.filter (RxFrame.isFrom p)).map content).Perm
      (answers config.enableAux devices padding r.input.txCan p) := by
  have hcount : ∀ p, (answers config.enableAux devices padding r.input.txCan p).length =
      expectedReplies r.input.txCan p := by
    intro p
    rw [hinput]
    exact length_answers hmap velocityMap hdevices padding p
  have hle : ∀ p, (r.rx.filter (RxFrame.isFrom p)).length ≤ expectedReplies r.input.txCan p := by
    intro p
    have hlength := (hanswers p).length_le
    rwa [List.length_map, hcount] at hlength
  apply (hanswers p).perm_of_length_le
  rw [List.length_map, hcount]
  rcases hreturn with hfull | hcomplete
  · -- As many frames as motors: none is missing from any processor.
    have htotal := length_eq_sum hinv.known
    have hmotors := sum_expected hmap velocityMap
    rw [← hinput] at hmotors
    have hcan1 := hle .can1
    have hcan2 := hle .can2
    have haux := hle .aux
    unfold Reading.Full at hfull
    simp only [Processor.all, List.map_cons, List.map_nil, List.sum_cons, List.sum_nil]
      at htotal hmotors
    cases p <;> omega
  · have hfresh := hinv.expected_le hcomplete p
    have hdrop := ((List.drop_sublist r.stale r.rx).filter (RxFrame.isFrom p)).length_le
    exact hfresh.trans hdrop

/-- **A cycle that is not out of time reports every motor** with what it sent, however the replies
are spread over the polls: from a board with nothing on it, when each motor answers once at most. The
buffer was made with the motors of the call before in mind, and must have room for those of this
one. -/
theorem reports_all {config : Configuration} {servoMap : Std.TreeMap Int Int}
    (hmap : OnBoard config.enableAux servoMap) (velocityMap : Std.TreeMap Int K)
    {devices : Int → Int → Option Values}
    (hdevices : ∀ id bus : Int, servoMap[id]? = some bus → (devices bus id).isSome) {padding : Nat}
    {es fs : List HatEvent} (hidle : ((hat config).after {} es).reading = none)
    (hempty : ∀ p, ((hat config).after {} es).queue p = []) {input : Input} {startNow : Int}
    (hinput : input.txCan = cycleTx servoMap velocityMap)
    (hroom : servoMap.toList.length ≤ max 5 (((hat config).after {} es).txSize * 2))
    (hfs : ∀ e ∈ fs, e.isCycle = false) {r : Reading} {now : Int}
    (hcycled : .cycled r now ∈
      (hat config).trace ((hat config).after {} es) (.cycle input startNow :: fs))
    (htime : ¬ r.Expired config now)
    (hanswers : ∀ p, ((fs.flatMap (HatEvent.arriving p)).map content).Subperm
      (answers config.enableAux devices padding input.txCan p)) :
    ∃ data : Std.TreeMap Int (MotorTelemetry K), rawServoData ∅ (r.rx.map reply) = some data ∧
      ∀ id : Int, data[id]? = (servoMap[id]?).bind fun bus => (devices bus id).map report := by
  have htrace : .cycled r now ∈ (hat config).trace {} (es ++ .cycle input startNow :: fs) := by
    rw [Machine.trace_append]
    exact List.mem_append_right _ hcycled
  obtain ⟨hinv, hreturn⟩ := cycled_inv config htrace
  have hreturn' : r.Full ∨ r.Complete now := by
    rcases hreturn with hfull | hcomplete | hexpired
    · exact Or.inl hfull
    · exact Or.inr hcomplete
    · exact absurd hexpired htime
  -- The frames and the room are those that the cycle began with.
  have hbegin := hcycled
  rw [Machine.trace_cons, hat_cycle config hidle, List.mem_append] at hbegin
  obtain ⟨hsame, hcapacity⟩ := cycled_of_cycle config rfl hfs (hbegin.resolve_left (by simp))
  have hinput' : r.input.txCan = cycleTx servoMap velocityMap := by rw [hsame, hinput]
  have hroom' : servoMap.toList.length ≤ r.capacity := by rw [hcapacity]; exact hroom
  have hsub : ∀ p, ((r.rx.filter (RxFrame.isFrom p)).map content).Subperm
      (answers config.enableAux devices padding r.input.txCan p) := by
    intro p
    have hdelivered := delivered_sublist config p _ _ hcycled
    have hnothing : pending p ((hat config).after {} es).queue
        ((hat config).after {} es).buffer = [] := by
      simp [pending, HatState.buffer, hidle, hempty p, frames]
    rw [hnothing, List.nil_append] at hdelivered
    rw [hsame]
    exact (hdelivered.map content).subperm.trans (hanswers p)
  have hperm := rx_perm_answers hmap velocityMap hdevices hinv hreturn' hinput' hroom' hsub
  apply rawServoData_hat
  intro answer
  rw [← mem_hatReplies hmap velocityMap devices padding, ← mem_answers, List.mem_map]
  constructor
  · rintro ⟨frame, hframe, rfl⟩
    obtain ⟨p, entries, hknown⟩ := hinv.known frame hframe
    have hfrom : content frame ∈ (r.rx.filter (RxFrame.isFrom p)).map content :=
      List.mem_map_of_mem (List.mem_filter.mpr ⟨hframe, mem_frames_isFrom hknown⟩)
    refine ⟨p, content frame, ?_, rfl⟩
    rw [← hinput']
    exact (hperm p).mem_iff.mp hfrom
  · rintro ⟨p, answer, hanswer, rfl⟩
    rw [← hinput'] at hanswer
    obtain ⟨frame, hframe, rfl⟩ := List.mem_map.mp ((hperm p).mem_iff.mpr hanswer)
    exact ⟨frame, (List.mem_filter.mp hframe).1, rfl⟩

/-! Two motors, each at a processor of its own. The reply of the second one comes first. -/

def twoMotors : Std.TreeMap Int Int := .ofList [((1 : Int), (1 : Int)), (2, 4)]

def twoDevices (bus id : Int) : Option Values :=
  if bus = 1 ∧ id = 1 then some (.constant 1)
  else if bus = 4 ∧ id = 2 then some (.constant 2)
  else none

/-- The reply of a device whose registers all hold one byte. -/
def constantReply (byte : UInt8) : List UInt8 :=
  [0x21, 0x00, byte, 0x2f, 0x01] ++ List.replicate 12 byte ++ [0x23, 0x0d, byte, byte, byte]

noncomputable def twoInput : Input := { txCan := cycleTx twoMotors (∅ : Std.TreeMap Int ℝ) }

def twoReplies : List HatEvent :=
  [.arrive .can2 ⟨[0x81, 0x00, 0x00, 0x02, 0x00] ++ constantReply 2, by decide, by decide⟩,
    .poll (fun _ => 100000) 100000,
    .arrive .can1 ⟨[0x01, 0x00, 0x00, 0x01, 0x00] ++ constantReply 1, by decide, by decide⟩]

theorem twoMotors_entry {id bus : Int} (h : twoMotors[id]? = some bus) :
    id = 1 ∧ bus = 1 ∨ id = 2 ∧ bus = 4 := by
  rw [← Std.TreeMap.mem_toList_iff_getElem?_eq_some] at h
  have hmem : (id, bus) ∈ [((1 : Int), (1 : Int)), (2, 4)] := h
  simpa using hmem

theorem twoReplies_reading :
    ((hat {}).after {} (.cycle twoInput 0 :: twoReplies)).reading.isSome := by decide +kernel

theorem reports_all_two :
    ∃ (r : Reading) (data : Std.TreeMap Int (MotorTelemetry ℝ)),
      .cycled r 300000 ∈ (hat {}).trace {}
        (.cycle twoInput 0 :: (twoReplies ++ [HatEvent.poll (fun _ => 200000) 300000])) ∧
      rawServoData ∅ (r.rx.map reply) = some data ∧
      data[(1 : Int)]? = some (report (.constant 1)) ∧
      data[(2 : Int)]? = some (report (.constant 2)) := by
  have hreading := (Option.some_get twoReplies_reading).symm
  have hdevices : ∀ id bus : Int, twoMotors[id]? = some bus → (twoDevices bus id).isSome := by
    intro id bus h
    rcases twoMotors_entry h with ⟨rfl, rfl⟩ | ⟨rfl, rfl⟩ <;> rfl
  have hcycled : .cycled (readProcessors {} (fun _ => 200000)
      ((hat {}).after {} (.cycle twoInput 0 :: twoReplies)).queue
      (((hat {}).after {} (.cycle twoInput 0 :: twoReplies)).reading.get twoReplies_reading)).2
      300000 ∈ (hat {}).trace {}
        (.cycle twoInput 0 :: twoReplies ++ [HatEvent.poll (fun _ => 200000) 300000]) := by
    rw [Machine.trace_snoc, hat_poll {} hreading, if_pos (Or.inr (Or.inl (by decide +kernel)))]
    exact List.mem_append_right _ List.mem_cons_self
  have hanswers : ∀ p, (((twoReplies ++ [HatEvent.poll (fun _ => 200000) 300000]).flatMap
      (HatEvent.arriving p)).map content).Subperm
      (answers false twoDevices 0 twoInput.txCan p) := by
    have hone : answers false twoDevices 0 twoInput.txCan .can1 =
        [(0x100, constantReply 1)] := by decide +kernel
    have htwo : answers false twoDevices 0 twoInput.txCan .can2 =
        [(0x200, constantReply 2)] := by decide +kernel
    have harriving : ((twoReplies ++ [HatEvent.poll (fun _ => 200000) 300000]).flatMap
        (HatEvent.arriving .can1)).map content = [(0x100, constantReply 1)] ∧
        ((twoReplies ++ [HatEvent.poll (fun _ => 200000) 300000]).flatMap
        (HatEvent.arriving .can2)).map content = [(0x200, constantReply 2)] := by decide +kernel
    intro p
    cases p with
    | can1 => rw [hone, harriving.1]
    | can2 => rw [htwo, harriving.2]
    | aux => exact List.nil_subperm
  obtain ⟨data, hdata, hget⟩ := @reports_all ℝ _ _ _ _ {} twoMotors onBoard_pair ∅ twoDevices
    hdevices 0 [] _ rfl (fun _ => rfl) twoInput 0 rfl (by decide +kernel) (by decide +kernel) _ _
    hcycled (by decide +kernel) hanswers
  exact ⟨_, data, hcycled, hdata, (hget 1).trans rfl, (hget 2).trans rfl⟩

end Telemetry

end RobotFramework
