import Mathlib.Algebra.Order.BigOperators.Group.List
import RobotFramework.Moteus.Query
import RobotFramework.Moteus.RoundTrip

/-!
# `mjbots/moteus/moteus_protocol.h`: what `Query::Make` asks for

A request is a sequence of headers, one for each run of neighbours that share a resolution. `runs`
names them; the bytes of a request, the registers that a device reads out of it, and the size that
the combiner expects of the reply are all functions of the runs. `requested_make` is the round trip:
a device is asked for the registers that the format names, in their order, and for nothing else.
-/

namespace Moteus

/-! ## Runs -/

/-- Neighbours that are asked for with one header. -/
structure Run where
  register : Nat
  count : Nat
  resolution : Resolution
deriving DecidableEq

namespace Run

def header (baseCommand : UInt8) (run : Run) : List UInt8 :=
  Moteus.header baseCommand run.resolution run.count run.register

/-- The registers of a run. -/
def registers (run : Run) : List (Nat × Resolution) :=
  (List.range run.count).map fun i => (run.register + i, run.resolution)

/-- A run whose header says what it means. -/
structure Ok (run : Run) : Prop where
  resolution : run.resolution ≠ .kIgnore
  count : 0 < run.count ∧ run.count ≤ 127
  register : run.register + run.count ≤ 65535

/-- What a run takes in a reply, with its header. -/
def replyLength (run : Run) : Nat := (run.header 0x20).length + run.count * run.resolution.size

end Run

/-- The runs among some registers, `current` being the resolution of the run before them. -/
def runs : Resolution → Nat → List Resolution → List Run
  | _, _, [] => []
  | current, register, new :: rest =>
    (if new = current ∨ new = .kIgnore then []
      else [⟨register, 1 + (rest.takeWhile (· = new)).length, new⟩]) ++ runs new (register + 1) rest

theorem writeCombiner_runs (baseCommand : UInt8) (current : Resolution) (register : Nat)
    (resolutions : List Resolution) :
    writeCombiner baseCommand current register resolutions =
      (runs current register resolutions).flatMap (Run.header baseCommand) := by
  induction resolutions generalizing current register with
  | nil => rfl
  | cons new rest ih =>
    rw [writeCombiner, runs, List.flatMap_append]
    by_cases hsame : new = current
    · rw [if_pos hsame, if_pos (Or.inl hsame), List.flatMap_nil, List.nil_append, ih, hsame]
    · rw [if_neg hsame]
      by_cases hignore : new = .kIgnore
      · rw [if_pos hignore, if_pos (Or.inr hignore), List.flatMap_nil, List.nil_append, ih, hignore]
      · rw [if_neg hignore, if_neg (not_or.mpr ⟨hsame, hignore⟩), List.flatMap_singleton, ih]
        rfl

/-- Neighbours of one resolution are one run. -/
theorem runs_replicate {resolution : Resolution} (hne : resolution ≠ .kIgnore) (register : Nat)
    {count : Nat} (hcount : 0 < count) :
    runs .kIgnore register (List.replicate count resolution) = [⟨register, count, resolution⟩] := by
  have hrest : ∀ n register, runs resolution register (List.replicate n resolution) = [] := by
    intro n
    induction n with
    | zero => exact fun _ => rfl
    | succ n ih =>
      intro register
      rw [List.replicate_succ, runs, if_pos (Or.inl rfl), ih, List.append_nil]
  obtain ⟨n, rfl⟩ := Nat.exists_eq_succ_of_ne_zero hcount.ne'
  rw [List.replicate_succ, runs, if_neg (not_or.mpr ⟨hne, hne⟩), hrest, List.append_nil,
    List.takeWhile_replicate, if_pos (by simp), List.length_replicate, Nat.add_comm]

/-- The combiner expects of the reply what the runs make up. -/
theorem replyLength_runs (current : Resolution) (register : Nat) (cells : List Cell) :
    WriteCombiner.replyLength current register cells =
      ((runs current register (cells.map Prod.fst)).map Run.replyLength).sum := by
  induction cells generalizing current register with
  | nil => rfl
  | cons cell cells ih =>
    obtain ⟨new, value⟩ := cell
    have hrun : (cells.map Prod.fst |>.takeWhile (· = new)).length = runLength new cells := by
      rw [List.takeWhile_map, List.length_map]
      rfl
    rw [WriteCombiner.replyLength, WriteCombiner.runReply, List.map_cons, runs, hrun,
      List.map_append, List.sum_append, ih]
    split
    · rfl
    · simp [Run.replyLength, Run.header]

/-- The registers that are asked for among some, in order. -/
def asked : Nat → List Resolution → List (Nat × Resolution)
  | _, [] => []
  | register, resolution :: rest =>
    if resolution = .kIgnore then asked (register + 1) rest
    else (register, resolution) :: asked (register + 1) rest

/-- The rest of a run of `count` that goes on at `register`. -/
theorem registers_succ (register count : Nat) (resolution : Resolution) :
    (Run.mk register (count + 1) resolution).registers =
      (register, resolution) :: (Run.mk (register + 1) count resolution).registers := by
  rw [Run.registers, List.range_succ_eq_map, List.map_cons, List.map_map]
  congr 1
  refine List.map_congr_left fun i _ => ?_
  simp only [Function.comp_apply, Nat.add_right_comm, Nat.succ_eq_add_one, ← Nat.add_assoc]

/-- **The runs are the registers that are asked for**: first what is left of the run before them,
then the runs of their own. -/
theorem asked_eq_runs (current : Resolution) (register : Nat) (resolutions : List Resolution) :
    asked register resolutions =
      (if current = .kIgnore then []
        else (Run.mk register (resolutions.takeWhile (· = current)).length current).registers) ++
        (runs current register resolutions).flatMap Run.registers := by
  induction resolutions generalizing current register with
  | nil => simp [asked, runs, Run.registers]
  | cons new rest ih =>
    rw [asked, runs, List.flatMap_append]
    by_cases hignore : new = .kIgnore
    · subst hignore
      have hnone : (if current = .kIgnore then []
          else (Run.mk register
            ((Resolution.kIgnore :: rest).takeWhile (· = current)).length current).registers) =
          [] := by
        by_cases hcurrent : current = .kIgnore
        · rw [if_pos hcurrent]
        · rw [if_neg hcurrent, List.takeWhile_cons_of_neg (by simpa using Ne.symm hcurrent)]
          rfl
      rw [if_pos rfl, if_pos (Or.inr rfl), hnone, ih .kIgnore, if_pos rfl]
      rfl
    · rw [if_neg hignore, ih new, if_neg hignore]
      by_cases hsame : new = current
      · subst hsame
        rw [if_neg hignore, if_pos (Or.inl rfl), List.takeWhile_cons_of_pos (by simp),
          List.length_cons, registers_succ]
        rfl
      · have hnone : (if current = .kIgnore then []
            else (Run.mk register
              ((new :: rest).takeWhile (· = current)).length current).registers) = [] := by
          rw [List.takeWhile_cons_of_neg (by simpa using hsame)]
          split <;> rfl
        rw [if_neg (not_or.mpr ⟨hsame, hignore⟩), hnone, List.flatMap_singleton,
          Nat.add_comm 1 (List.length _), registers_succ]
        rfl

/-- Every run stands for registers among these. -/
theorem runs_mem {current : Resolution} {register : Nat} {resolutions : List Resolution} {run : Run}
    (h : run ∈ runs current register resolutions) :
    run.resolution ≠ .kIgnore ∧ 0 < run.count ∧ register ≤ run.register ∧
      run.register + run.count ≤ register + resolutions.length ∧
      run.count ≤ (resolutions.filter (· ≠ .kIgnore)).length := by
  induction resolutions generalizing current register with
  | nil => cases h
  | cons new rest ih =>
    have hle : ((rest.filter (· ≠ .kIgnore)).length) ≤
        ((new :: rest).filter (· ≠ .kIgnore)).length := by
      rw [List.filter_cons]
      split <;> simp
    rw [runs, List.mem_append] at h
    rcases h with h | h
    · split at h
      · cases h
      · rename_i hnew
        rw [List.mem_singleton] at h
        subst h
        have hne := (not_or.mp hnew).2
        have hrun : (rest.takeWhile (· = new)).length ≤ rest.length :=
          (List.takeWhile_sublist _).length_le
        have hasked : (rest.takeWhile (· = new)).length ≤ (rest.filter (· ≠ .kIgnore)).length := by
          have hall : (rest.takeWhile (· = new)).filter (· ≠ .kIgnore) =
              rest.takeWhile (· = new) := by
            refine List.filter_eq_self.mpr fun r hr => ?_
            have := List.mem_takeWhile_imp hr
            simp only [decide_eq_true_eq] at this
            simpa [this] using hne
          rw [← hall]
          exact ((List.takeWhile_sublist _).filter _).length_le
        refine ⟨hne, Nat.add_pos_left Nat.one_pos _, le_rfl, ?_, ?_⟩
        · rw [List.length_cons]
          show register + (1 + _) ≤ _
          omega
        · rw [List.filter_cons_of_pos (by simpa using hne), List.length_cons]
          show 1 + _ ≤ _
          omega
    · obtain ⟨hne, hpos, hregister, hbound, hcount⟩ := ih h
      refine ⟨hne, hpos, by omega, ?_, hcount.trans hle⟩
      rw [List.length_cons]
      omega

/-! ## The device's side -/

theorem short_request : ∀ resolution : Resolution, resolution ≠ .kIgnore →
    ∀ count, 0 < count → count ≤ 3 →
      let cmd := 0x10 + resolution.code + UInt8.ofNat count
      (0x10 ≤ cmd ∧ cmd < 0x20) ∧ cmd &&& 0x03 ≠ 0 ∧
        (cmd &&& 0x03).toNat = count ∧ Resolution.ofCode cmd = resolution := by
  intro resolution hne count hpos hle
  obtain rfl | rfl | rfl : count = 1 ∨ count = 2 ∨ count = 3 := by omega
  all_goals
    cases resolution with
    | kIgnore => exact absurd rfl hne
    | _ => decide

theorem long_request : ∀ resolution : Resolution, resolution ≠ .kIgnore →
    let cmd := 0x10 + resolution.code
    (0x10 ≤ cmd ∧ cmd < 0x20) ∧ cmd &&& 0x03 = 0 ∧ Resolution.ofCode cmd = resolution := by
  intro resolution hne
  cases resolution with
  | kIgnore => exact absurd rfl hne
  | _ => decide

/-- The header of a run is read back as the registers of the run. -/
theorem requestedWithin_header {run : Run} (hok : run.Ok) (fuel : Nat) (tail : List UInt8) :
    requestedWithin (fuel + 1) (run.header 0x10 ++ tail) =
      run.registers ++ requestedWithin fuel tail := by
  have hregister := hok.register
  have hread : readVaruint 5 (writeVaruint 5 run.register ++ tail) = (run.register, tail) :=
    readVaruint_writeVaruint (by omega) tail
  obtain ⟨hpos, hle⟩ := hok.count
  unfold Run.header header
  dsimp only
  split
  · rename_i hshort
    obtain ⟨hcmd, hcode, hcount, hres⟩ := short_request _ hok.resolution _ hpos hshort
    rw [List.append_assoc, List.singleton_append, requestedWithin.eq_def]
    dsimp only
    rw [if_pos hcmd, if_neg hcode, hcount, hread, hres]
    rfl
  · obtain ⟨hcmd, hcode, hres⟩ := long_request _ hok.resolution
    have hbyte : (UInt8.ofNat run.count).toNat = run.count := by
      rw [UInt8.toNat_ofNat']
      omega
    rw [List.append_assoc, List.cons_append, List.singleton_append, requestedWithin.eq_def]
    dsimp only
    rw [if_pos hcmd, if_pos hcode]
    dsimp only
    rw [hbyte, hread, hres]
    rfl

theorem requestedWithin_headers {l : List Run} (hl : ∀ run ∈ l, run.Ok) (fuel : Nat) :
    requestedWithin (fuel + l.length) (l.flatMap (Run.header 0x10)) =
      l.flatMap Run.registers := by
  induction l with
  | nil =>
    cases fuel with
    | zero => rfl
    | succ fuel => rfl
  | cons run l ih =>
    rw [List.flatMap_cons, List.flatMap_cons, List.length_cons, ← Nat.add_assoc,
      requestedWithin_header (hl run List.mem_cons_self),
      ih fun r hr => hl r (List.mem_cons_of_mem _ hr)]

theorem header_ne_nil (baseCommand : UInt8) (run : Run) : run.header baseCommand ≠ [] := by
  unfold Run.header header
  dsimp only
  split <;> simp

theorem length_le_headers (l : List Run) : l.length ≤ (l.flatMap (Run.header 0x10)).length := by
  rw [List.length_flatMap]
  calc l.length = (l.map fun _ => 1).sum := by simp
    _ ≤ _ := List.sum_le_sum fun run _ => List.length_pos_iff.mpr (header_ne_nil 0x10 run)

theorem requested_headers {l : List Run} (hl : ∀ run ∈ l, run.Ok) :
    requested (l.flatMap (Run.header 0x10)) = l.flatMap Run.registers := by
  have hlength := length_le_headers l
  have hfuel := requestedWithin_headers hl ((l.flatMap (Run.header 0x10)).length - l.length)
  rw [Nat.sub_add_cancel hlength] at hfuel
  exact hfuel

/-! ## Formats -/

namespace Query

/-- The registers between the first and the last one of `extra`. -/
def extraBlock (extra : List ItemFormat) : List (Nat × List Resolution) :=
  match extra.head?, extra.getLast? with
  | some first, some last =>
    [(first.registerNumber,
      extraResolutions (last.registerNumber - first.registerNumber + 1) first.registerNumber extra)]
  | _, _ => []

/-- The blocks of a request: each has a combiner of its own. -/
def blocks (format : Format) : List (Nat × List Resolution) :=
  [(Register.kMode,
      [format.mode, format.position, format.velocity, format.torque, format.qCurrent,
        format.dCurrent, format.absPosition, format.power]),
    (Register.kMotorTemperature,
      [format.motorTemperature, format.trajectoryComplete, format.homeState, format.voltage,
        format.temperature, format.fault]),
    (Register.kAux1GpioStatus, [format.aux1Gpio, format.aux2Gpio]),
    (Register.kAux1PwmInputPeriod,
      [format.aux1PwmInputPeriodUs, format.aux1PwmInputDutyCycle, format.aux2PwmInputPeriodUs,
        format.aux2PwmInputDutyCycle])] ++ extraBlock format.extra

/-- The runs of a request. -/
def formatRuns (format : Format) : List Run :=
  (blocks format).flatMap fun block => runs .kIgnore block.1 block.2

/-- The registers that a format names, in the order of the source. -/
def Format.registers (format : Format) : List (Nat × Resolution) :=
  [(Register.kMode, format.mode), (Register.kPosition, format.position),
    (Register.kVelocity, format.velocity), (Register.kTorque, format.torque),
    (Register.kQCurrent, format.qCurrent), (Register.kDCurrent, format.dCurrent),
    (Register.kAbsPosition, format.absPosition), (Register.kPower, format.power),
    (Register.kMotorTemperature, format.motorTemperature),
    (Register.kTrajectoryComplete, format.trajectoryComplete),
    (Register.kHomeState, format.homeState), (Register.kVoltage, format.voltage),
    (Register.kTemperature, format.temperature), (Register.kFault, format.fault),
    (Register.kAux1GpioStatus, format.aux1Gpio), (Register.kAux2GpioStatus, format.aux2Gpio),
    (Register.kAux1PwmInputPeriod, format.aux1PwmInputPeriodUs),
    (Register.kAux1PwmInputDutyCycle, format.aux1PwmInputDutyCycle),
    (Register.kAux2PwmInputPeriod, format.aux2PwmInputPeriodUs),
    (Register.kAux2PwmInputDutyCycle, format.aux2PwmInputDutyCycle)] ++
    format.extra.map fun item => (item.registerNumber, item.resolution)

/-- The entries of `extra` are sorted, none is the one that stands for an unused entry, and they are
no more than the array has room for and no farther apart than `Make` puts up with. -/
structure Format.Wf (format : Format) : Prop where
  sorted : (format.extra.map ItemFormat.registerNumber).Pairwise (· < ·)
  lt : ∀ item ∈ format.extra, item.registerNumber < 32767
  length : format.extra.length ≤ kMaxExtra
  span : ∀ first ∈ format.extra.head?, ∀ last ∈ format.extra.getLast?,
    last.registerNumber - first.registerNumber + 1 ≤ 512

theorem make_eq_blocks (format : Format) :
    make format = (blocks format).flatMap fun block => readHeaders block.1 block.2 := by
  have hextra : makeExtra format.extra =
      (extraBlock format.extra).flatMap fun block => readHeaders block.1 block.2 := by
    unfold makeExtra extraBlock
    cases format.extra.head? with
    | none => rfl
    | some first =>
      cases format.extra.getLast? with
      | none => rfl
      | some last => exact (List.flatMap_singleton _ _).symm
  rw [make, hextra, blocks, List.flatMap_append]
  simp only [List.flatMap_cons, List.flatMap_nil, List.append_assoc, List.append_nil]

theorem make_eq_runs (format : Format) :
    make format = (formatRuns format).flatMap (Run.header 0x10) := by
  rw [make_eq_blocks, formatRuns, List.flatMap_assoc]
  refine List.flatMap_congr fun block _ => ?_
  exact writeCombiner_runs 0x10 .kIgnore block.1 block.2

theorem asked_registers (format : Format) :
    (formatRuns format).flatMap Run.registers =
      (blocks format).flatMap fun block => asked block.1 block.2 := by
  rw [formatRuns, List.flatMap_assoc]
  refine List.flatMap_congr fun block _ => ?_
  rw [asked_eq_runs .kIgnore, if_pos rfl, List.nil_append]

theorem asked_eq_filter (register : Nat) (resolutions : List Resolution) :
    asked register resolutions =
      (resolutions.zipIdx register |>.map fun p => (p.2, p.1)).filter (·.2 ≠ .kIgnore) := by
  induction resolutions generalizing register with
  | nil => rfl
  | cons resolution rest ih =>
    rw [asked, ih, List.zipIdx_cons, List.map_cons, List.filter_cons]
    by_cases h : resolution = .kIgnore <;> simp [h]

/-- Nothing is left of `extra` behind its last register. -/
theorem asked_extraResolutions {extra : List ItemFormat} {count register : Nat}
    (hsorted : (extra.map ItemFormat.registerNumber).Pairwise (· < ·))
    (hrange : ∀ item ∈ extra,
      register ≤ item.registerNumber ∧ item.registerNumber < register + count) :
    asked register (extraResolutions count register extra) =
      (extra.map fun item => (item.registerNumber, item.resolution)).filter (·.2 ≠ .kIgnore) := by
  induction count generalizing register extra with
  | zero =>
    cases extra with
    | nil => rfl
    | cons item items =>
      have := hrange item List.mem_cons_self
      omega
  | succ count ih =>
    cases extra with
    | nil =>
      rw [extraResolutions, asked, if_pos rfl]
      exact ih List.Pairwise.nil (List.forall_mem_nil _)
    | cons item items =>
      rw [List.map_cons, List.pairwise_cons] at hsorted
      obtain ⟨hfirst, hrest⟩ := hsorted
      rw [extraResolutions]
      split
      · rename_i hhere
        have hitems : ∀ i ∈ items,
            register + 1 ≤ i.registerNumber ∧ i.registerNumber < register + 1 + count := by
          intro i hi
          have hlt := hfirst i.registerNumber (List.mem_map_of_mem hi)
          have := hrange i (List.mem_cons_of_mem _ hi)
          omega
        rw [asked, ih hrest hitems, List.map_cons, List.filter_cons, hhere]
        by_cases hignore : item.resolution = .kIgnore <;> simp [hignore]
      · rename_i hnot
        rw [asked, if_pos rfl]
        refine ih (List.pairwise_cons.mpr ⟨hfirst, hrest⟩) fun i hi => ?_
        have hhere := hrange item List.mem_cons_self
        rcases List.mem_cons.mp hi with rfl | hmem
        · omega
        · have hlt := hfirst i.registerNumber (List.mem_map_of_mem hmem)
          have := hrange i hi
          omega

/-- Entries that are sorted lie between the first and the last one. -/
theorem mem_sorted {first last item : ItemFormat} {extra : List ItemFormat}
    (hsorted : (extra.map ItemFormat.registerNumber).Pairwise (· < ·))
    (hfirst : extra.head? = some first) (hlast : extra.getLast? = some last) (hitem : item ∈ extra) :
    first.registerNumber ≤ item.registerNumber ∧ item.registerNumber ≤ last.registerNumber := by
  obtain ⟨items, rfl⟩ : ∃ items, extra = first :: items :=
    ⟨extra.tail, (List.cons_head?_tail hfirst).symm⟩
  rw [List.map_cons, List.pairwise_cons] at hsorted
  constructor
  · rcases List.mem_cons.mp hitem with rfl | hmem
    · exact le_rfl
    · exact (hsorted.1 _ (List.mem_map_of_mem hmem)).le
  · obtain ⟨init, hinit⟩ := List.getLast?_eq_some_iff.mp hlast
    have hall : (((first :: items).map ItemFormat.registerNumber)).Pairwise (· < ·) :=
      List.pairwise_cons.mpr hsorted
    rw [hinit, List.map_append, List.pairwise_append] at hall
    rw [hinit] at hitem
    rcases List.mem_append.mp hitem with hmem | hmem
    · exact (hall.2.2 _ (List.mem_map_of_mem hmem) _ (by simp)).le
    · rw [List.mem_singleton.mp hmem]

theorem asked_extraBlock {format : Format} (h : format.Wf) :
    ((extraBlock format.extra).flatMap fun block => asked block.1 block.2) =
      (format.extra.map fun item => (item.registerNumber, item.resolution)).filter
        (·.2 ≠ .kIgnore) := by
  unfold extraBlock
  split
  · rename_i first last hfirst hlast
    rw [List.flatMap_singleton]
    refine asked_extraResolutions h.sorted fun item hitem => ?_
    have := mem_sorted h.sorted hfirst hlast hitem
    omega
  · rename_i hnone
    cases hextra : format.extra with
    | nil => rfl
    | cons item items =>
      rw [hextra] at hnone
      exact absurd (List.getLast?_eq_some_getLast (List.cons_ne_nil item items)) (hnone item _ rfl)

theorem extraResolutions_length (count register : Nat) (extra : List ItemFormat) :
    (extraResolutions count register extra).length = count := by
  induction count generalizing register extra with
  | zero => rfl
  | succ count ih =>
    cases extra with
    | nil => rw [extraResolutions, List.length_cons, ih]
    | cons item items =>
      rw [extraResolutions]
      split <;> rw [List.length_cons, ih]

theorem extraResolutions_asked (count register : Nat) (extra : List ItemFormat) :
    ((extraResolutions count register extra).filter (· ≠ .kIgnore)).length ≤ extra.length := by
  induction count generalizing register extra with
  | zero => simp [extraResolutions]
  | succ count ih =>
    cases extra with
    | nil =>
      rw [extraResolutions, List.filter_cons_of_neg (by simp)]
      exact ih _ []
    | cons item items =>
      rw [extraResolutions]
      split
      · have := ih (register + 1) items
        rw [List.filter_cons, List.length_cons]
        split
        · rw [List.length_cons]
          omega
        · omega
      · rw [List.filter_cons_of_neg (by simp)]
        exact ih _ (item :: items)

/-- Every run of a request has a header that says what it means. -/
theorem formatRuns_ok {format : Format} (h : format.Wf) : ∀ run ∈ formatRuns format, run.Ok := by
  intro run hrun
  rw [formatRuns, List.mem_flatMap] at hrun
  obtain ⟨block, hblock, hrun⟩ := hrun
  obtain ⟨hne, hpos, -, hbound, hcount⟩ := runs_mem hrun
  have hsmall : (block.2.filter (· ≠ .kIgnore)).length ≤ 16 ∧
      block.1 + block.2.length ≤ 32767 := by
    rw [blocks, List.mem_append] at hblock
    rcases hblock with hfixed | hextra
    · have hlength : block.2.length ≤ 8 ∧ block.1 ≤ 0x72 := by
        simp only [List.mem_cons, List.not_mem_nil, or_false] at hfixed
        rcases hfixed with rfl | rfl | rfl | rfl <;> simp [Register.kMode,
          Register.kMotorTemperature, Register.kAux1GpioStatus, Register.kAux1PwmInputPeriod]
      have := List.length_filter_le (fun r : Resolution => decide (r ≠ .kIgnore)) block.2
      omega
    · unfold extraBlock at hextra
      split at hextra
      · rename_i first last hfirst hlast
        rw [List.mem_singleton] at hextra
        subst hextra
        have hmem : last ∈ format.extra := List.mem_of_getLast? hlast
        have hsorted := mem_sorted h.sorted hfirst hlast hmem
        have hlt := h.lt last hmem
        have hcount := extraResolutions_asked
          (last.registerNumber - first.registerNumber + 1) first.registerNumber format.extra
        have hlength := h.length
        rw [kMaxExtra] at hlength
        refine ⟨hcount.trans hlength, ?_⟩
        dsimp only
        rw [extraResolutions_length]
        omega
      · cases hextra
  exact ⟨hne, ⟨hpos, by omega⟩, by omega⟩

/-- The runs of a request are the registers that the format names, in order. -/
theorem registers_formatRuns {format : Format} (h : format.Wf) :
    (formatRuns format).flatMap Run.registers = format.registers.filter (·.2 ≠ .kIgnore) := by
  have hasked := asked_extraBlock h
  rw [asked_registers, blocks, List.flatMap_append, hasked, Format.registers, List.filter_append]
  congr 1
  simp only [List.flatMap_cons, List.flatMap_nil, List.append_nil, asked_eq_filter,
    ← List.filter_append]
  rfl

/-- **What a device is asked for** is what the format names: every register that is not ignored, at
its resolution, in order. -/
theorem requested_make {format : Format} (h : format.Wf) :
    requested (make format) = format.registers.filter (·.2 ≠ .kIgnore) := by
  rw [make_eq_runs, requested_headers (formatRuns_ok h), registers_formatRuns h]

/-- The default registers, with the current of the motor and one register more. -/
theorem requested_make_current :
    requested (make { qCurrent := .kFloat, extra := [⟨0x070, .kInt16⟩] }) =
      [(0x000, .kInt8), (0x001, .kFloat), (0x002, .kFloat), (0x003, .kFloat), (0x004, .kFloat),
        (0x00d, .kInt8), (0x00e, .kInt8), (0x00f, .kInt8), (0x070, .kInt16)] :=
  (requested_make ⟨by simp, by simp, by decide, by simp⟩).trans (by decide)

end Query

end Moteus
