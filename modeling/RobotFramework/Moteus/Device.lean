import RobotFramework.Moteus.Runs

/-!
# The device's side of the register protocol

A frame for a controller is a sequence of headers, as `mjbots/moteus/moteus_multiplex.h` numbers
them: a write has the values of its run behind it, a read has nothing, a NOP is skipped. `accesses`
is what a device makes of a frame, `reply` what it answers: for each read the same run with the
reply command and its values.

Against this side stands what the host makes: registers that a `WriteCombiner` writes, the request
of a query behind them, and NOPs at the end (`accesses_frame`). The size that `Query::Make` returns
is the size of the answer (`makeFrame_eq`, `length_reply`).
-/

namespace Moteus

open MultiplexParser (Raw)

/-- What a device is told to do. -/
inductive Access where
  | write (raw : Raw)
  | read (run : Run)
deriving DecidableEq

/-- The runs that are read. -/
def reads : List Access → List Run
  | [] => []
  | .write _ :: rest => reads rest
  | .read run :: rest => run :: reads rest

/-- The values of a run, in order, and what stands behind them. -/
def takeValues (resolution : Resolution) : Nat → Nat → List UInt8 → List Raw × List UInt8
  | 0, _, bytes => ([], bytes)
  | count + 1, register, bytes =>
    let (raws, rest) := takeValues resolution count (register + 1) (bytes.drop resolution.size)
    (⟨register, resolution, bytes.take resolution.size⟩ :: raws, rest)

def accessesWithin : Nat → List UInt8 → List Access
  | 0, _ => []
  | _, [] => []
  | fuel + 1, cmd :: bytes =>
    if cmd = kNop then accessesWithin fuel bytes
    else if cmd < 0x20 then
      let (count, bytes) : Nat × List UInt8 :=
        if cmd &&& 0x03 = 0 then
          match bytes with
          | [] => (0, [])
          | n :: bytes => (n.toNat, bytes)
        else ((cmd &&& 0x03).toNat, bytes)
      let (register, bytes) := readVaruint 5 bytes
      let resolution := Resolution.ofCode cmd
      if cmd < 0x10 then
        let (raws, bytes) := takeValues resolution count register bytes
        raws.map .write ++ accessesWithin fuel bytes
      else .read ⟨register, count, resolution⟩ :: accessesWithin fuel bytes
    else []

/-- What a device makes of a frame. -/
def accesses (bytes : List UInt8) : List Access := accessesWithin bytes.length bytes

/-- The values of the registers of a device, as it sends them. -/
structure Values where
  bytes : Nat → Resolution → List UInt8
  length_bytes : ∀ register resolution, (bytes register resolution).length = resolution.size

/-- Registers that all hold the same byte, over and over. -/
def Values.constant (byte : UInt8) : Values where
  bytes _ resolution := List.replicate resolution.size byte
  length_bytes _ _ := List.length_replicate

/-- A run of a reply. -/
def Values.block (values : Values) (run : Run) : Nat × List Cell :=
  (run.register, run.registers.map fun r => (r.2, values.bytes r.1 r.2))

/-- The answer to the reads of a frame. -/
def Values.reply (values : Values) (accesses : List Access) : List UInt8 :=
  MultiplexParser.encodeBlocks ((reads accesses).map values.block)

/-! ## Headers -/

theorem accessesWithin_nil (fuel : Nat) : accessesWithin fuel [] = [] := by
  cases fuel <;> rfl

theorem accessesWithin_padding (fuel n : Nat) :
    accessesWithin fuel (List.replicate n kNop) = [] := by
  induction n generalizing fuel with
  | zero => exact accessesWithin_nil fuel
  | succ n ih =>
    cases fuel with
    | zero => rfl
    | succ fuel =>
      rw [List.replicate_succ, accessesWithin.eq_def]
      dsimp only
      rw [if_pos rfl, ih]

theorem short_access : ∀ base : UInt8, base = 0x00 ∨ base = 0x10 →
    ∀ resolution : Resolution, resolution ≠ .kIgnore → ∀ count, 0 < count → count ≤ 3 →
      let cmd := base + resolution.code + UInt8.ofNat count
      cmd ≠ kNop ∧ cmd < 0x20 ∧ cmd &&& 0x03 ≠ 0 ∧ (cmd &&& 0x03).toNat = count ∧
        Resolution.ofCode cmd = resolution ∧ (cmd < 0x10 ↔ base = 0x00) := by
  intro base hbase resolution hne count hpos hle
  obtain rfl | rfl | rfl : count = 1 ∨ count = 2 ∨ count = 3 := by omega
  all_goals
    rcases hbase with rfl | rfl
    all_goals
      cases resolution with
      | kIgnore => exact absurd rfl hne
      | _ => decide

theorem long_access : ∀ base : UInt8, base = 0x00 ∨ base = 0x10 →
    ∀ resolution : Resolution, resolution ≠ .kIgnore →
      let cmd := base + resolution.code
      cmd ≠ kNop ∧ cmd < 0x20 ∧ cmd &&& 0x03 = 0 ∧
        Resolution.ofCode cmd = resolution ∧ (cmd < 0x10 ↔ base = 0x00) := by
  intro base hbase resolution hne
  rcases hbase with rfl | rfl
  all_goals
    cases resolution with
    | kIgnore => exact absurd rfl hne
    | _ => decide

/-- A header of either kind, read back. -/
theorem accessesWithin_header {base : UInt8} (hbase : base = 0x00 ∨ base = 0x10) {run : Run}
    (hok : run.Ok) (fuel : Nat) (tail : List UInt8) :
    accessesWithin (fuel + 1) (run.header base ++ tail) =
      if base = 0x00 then
        (takeValues run.resolution run.count run.register tail).1.map Access.write ++
          accessesWithin fuel (takeValues run.resolution run.count run.register tail).2
      else .read run :: accessesWithin fuel tail := by
  have hregister := hok.register
  have hread : readVaruint 5 (writeVaruint 5 run.register ++ tail) = (run.register, tail) :=
    readVaruint_writeVaruint (by omega) tail
  obtain ⟨hpos, hle⟩ := hok.count
  unfold Run.header header
  dsimp only
  split
  · rename_i hshort
    obtain ⟨hnop, hcmd, hcode, hcount, hres, hwrite⟩ :=
      short_access base hbase _ hok.resolution _ hpos hshort
    rw [List.append_assoc, List.singleton_append, accessesWithin.eq_def]
    dsimp only
    rw [if_neg hnop, if_pos hcmd, if_neg hcode, hcount, hread, hres]
    dsimp only
    rw [if_congr hwrite rfl rfl]
  · obtain ⟨hnop, hcmd, hcode, hres, hwrite⟩ := long_access base hbase _ hok.resolution
    have hbyte : (UInt8.ofNat run.count).toNat = run.count := by
      rw [UInt8.toNat_ofNat']
      omega
    rw [List.append_assoc, List.cons_append, List.singleton_append, accessesWithin.eq_def]
    dsimp only
    rw [if_neg hnop, if_pos hcmd, if_pos hcode]
    dsimp only
    rw [hbyte, hread, hres]
    dsimp only
    rw [if_congr hwrite rfl rfl]

/-! ## Writes -/

/-- What a device makes of a frame inside a block of registers: the values that are left of a run
stand in front. -/
def accessesInside (current : Resolution) (count register fuel : Nat) (bytes : List UInt8) :
    List Access :=
  (takeValues current count register bytes).1.map .write ++
    accessesWithin fuel (takeValues current count register bytes).2

theorem takeValues_cons {resolution : Resolution} {value : List UInt8}
    (hvalue : value.length = resolution.size) (count register : Nat) (bytes : List UInt8) :
    takeValues resolution (count + 1) register (value ++ bytes) =
      (⟨register, resolution, value⟩ :: (takeValues resolution count (register + 1) bytes).1,
        (takeValues resolution count (register + 1) bytes).2) := by
  rw [takeValues, ← hvalue, List.drop_left, List.take_left]

/-- **Registers that are written come back as they went in.** -/
theorem accessesInside_encode {cells : List Cell} (current : Resolution) {register : Nat}
    (hblock : MultiplexParser.Block register cells) (tail : List UInt8) :
    ∃ headers ≤ (encodeRegisters 0x00 current register cells).length, ∀ fuel,
      accessesInside current (if current = .kIgnore then 0 else runLength current cells) register
          (fuel + headers) (encodeRegisters 0x00 current register cells ++ tail) =
        (listed register cells).map Access.write ++ accessesWithin fuel tail := by
  induction cells generalizing current register with
  | nil =>
    refine ⟨0, Nat.zero_le _, fun fuel => ?_⟩
    simp [accessesInside, runLength, takeValues, encodeRegisters, listed]
  | cons cell cells ih =>
    obtain ⟨new, value⟩ := cell
    by_cases hignore : new = .kIgnore
    · -- Nothing is written, and no run goes on.
      subst hignore
      obtain ⟨headers, hle, hrest⟩ := ih .kIgnore hblock.tail
      have hcount : (if current = .kIgnore then 0
          else runLength current ((.kIgnore, value) :: cells)) = 0 := by
        split
        · rfl
        · rename_i hcurrent
          rw [WriteCombiner.runLength_cons, if_neg (Ne.symm hcurrent)]
      have hencode : encodeRegisters 0x00 current register ((.kIgnore, value) :: cells) =
          encodeRegisters 0x00 .kIgnore (register + 1) cells := by
        rw [encodeRegisters, if_pos (Or.inr rfl), if_pos rfl, List.nil_append, List.nil_append]
      refine ⟨headers, by rw [hencode]; exact hle, fun fuel => ?_⟩
      rw [hcount, hencode, listed, if_pos rfl]
      exact hrest fuel
    · obtain ⟨headers, hle, hrest⟩ := ih new hblock.tail
      rw [if_neg hignore] at hrest
      have hvalue : value.length = new.size := hblock.size _ List.mem_cons_self hignore
      -- The value in front of the rest of its run.
      have hstep : ∀ fuel, accessesInside new (runLength new cells + 1) register (fuel + headers)
          (value ++ (encodeRegisters 0x00 new (register + 1) cells ++ tail)) =
            Access.write ⟨register, new, value⟩ ::
              ((listed (register + 1) cells).map Access.write ++ accessesWithin fuel tail) := by
        intro fuel
        have hinside := hrest fuel
        unfold accessesInside at hinside ⊢
        rw [takeValues_cons hvalue]
        dsimp only
        rw [List.map_cons, List.cons_append, hinside]
      rw [listed, if_neg hignore]
      by_cases hsame : new = current
      · -- A run that goes on.
        subst hsame
        have hencode : encodeRegisters 0x00 new register ((new, value) :: cells) =
            value ++ encodeRegisters 0x00 new (register + 1) cells := by
          rw [encodeRegisters, if_pos (Or.inl rfl), if_neg hignore, List.nil_append]
        refine ⟨headers, ?_, fun fuel => ?_⟩
        · rw [hencode, List.length_append]
          omega
        · rw [if_neg hignore, WriteCombiner.runLength_cons, if_pos rfl, hencode, List.append_assoc]
          exact hstep fuel
      · -- The header of a run.
        have hcount : (if current = .kIgnore then 0
            else runLength current ((new, value) :: cells)) = 0 := by
          split
          · rfl
          · rw [WriteCombiner.runLength_cons, if_neg hsame]
        let run : Run := ⟨register, 1 + runLength new cells, new⟩
        have hencode : encodeRegisters 0x00 current register ((new, value) :: cells) =
            run.header 0x00 ++ (value ++ encodeRegisters 0x00 new (register + 1) cells) := by
          rw [encodeRegisters, if_neg (not_or.mpr ⟨hsame, hignore⟩), if_neg hignore,
            List.append_assoc]
          rfl
        have hok : run.Ok := by
          have hlength := hblock.length
          have hregister := hblock.register_le
          have hrun : runLength new cells ≤ cells.length :=
            (List.takeWhile_sublist _).length_le
          rw [List.length_cons] at hlength hregister
          exact ⟨hignore, ⟨by simp [run], by show 1 + _ ≤ 127; omega⟩,
            by show register + (1 + _) ≤ 65535; omega⟩
        have hpos := List.length_pos_iff.mpr (header_ne_nil 0x00 run)
        refine ⟨headers + 1, ?_, fun fuel => ?_⟩
        · rw [hencode, List.length_append, List.length_append]
          omega
        · have hheader := accessesWithin_header (Or.inl rfl) hok (fuel + headers)
            (value ++ (encodeRegisters 0x00 new (register + 1) cells ++ tail))
          have hinside := hstep fuel
          rw [Nat.add_comm (runLength new cells) 1] at hinside
          rw [hcount, hencode, List.append_assoc, List.append_assoc]
          show accessesWithin (fuel + headers + 1) _ = _
          rw [takeValues, hheader, if_pos rfl]
          exact hinside

/-! ## Reads -/

theorem accessesWithin_reads {l : List Run} (hl : ∀ run ∈ l, run.Ok) (fuel : Nat)
    (tail : List UInt8) :
    accessesWithin (fuel + l.length) (l.flatMap (Run.header 0x10) ++ tail) =
      l.map Access.read ++ accessesWithin fuel tail := by
  induction l with
  | nil => rfl
  | cons run l ih =>
    rw [List.flatMap_cons, List.length_cons, ← Nat.add_assoc, List.append_assoc,
      accessesWithin_header (Or.inr rfl) (hl run List.mem_cons_self), if_neg (by decide),
      ih fun r hr => hl r (List.mem_cons_of_mem _ hr)]
    rfl

/-! ## Frames -/

/-- The bytes of blocks of registers that are written. -/
def writeBlocks (blocks : List (Nat × List Cell)) : List UInt8 :=
  blocks.flatMap fun block => encodeRegisters 0x00 .kIgnore block.1 block.2

theorem accessesWithin_writes {blocks : List (Nat × List Cell)}
    (hblocks : ∀ block ∈ blocks, MultiplexParser.Block block.1 block.2) (tail : List UInt8) :
    ∃ headers ≤ (writeBlocks blocks).length, ∀ fuel,
      accessesWithin (fuel + headers) (writeBlocks blocks ++ tail) =
        (MultiplexParser.listedBlocks blocks).map Access.write ++ accessesWithin fuel tail := by
  induction blocks with
  | nil => exact ⟨0, Nat.zero_le _, fun fuel => rfl⟩
  | cons block blocks ih =>
    obtain ⟨headers, hle, hrest⟩ := ih fun b hb => hblocks b (List.mem_cons_of_mem _ hb)
    obtain ⟨headers', hle', hfirst⟩ := accessesInside_encode .kIgnore
      (hblocks block List.mem_cons_self) (writeBlocks blocks ++ tail)
    have hbytes : writeBlocks (block :: blocks) =
        encodeRegisters 0x00 .kIgnore block.1 block.2 ++ writeBlocks blocks := List.flatMap_cons
    have hlisted : MultiplexParser.listedBlocks (block :: blocks) =
        listed block.1 block.2 ++ MultiplexParser.listedBlocks blocks := List.flatMap_cons
    refine ⟨headers + headers', ?_, fun fuel => ?_⟩
    · rw [hbytes, List.length_append]
      omega
    · have hstep := hfirst (fuel + headers)
      rw [if_pos rfl] at hstep
      rw [hbytes, hlisted, List.append_assoc, ← Nat.add_assoc, List.map_append, List.append_assoc,
        ← hrest fuel]
      exact hstep

/-- **What a device makes of a frame of the host**: the registers that are written, then the reads
of the query, whatever NOPs the frame was filled up with. -/
theorem accesses_frame {blocks : List (Nat × List Cell)} {l : List Run}
    (hblocks : ∀ block ∈ blocks, MultiplexParser.Block block.1 block.2) (hl : ∀ run ∈ l, run.Ok)
    (padding : Nat) :
    accesses (writeBlocks blocks ++ (l.flatMap (Run.header 0x10) ++
      List.replicate padding kNop)) =
      (MultiplexParser.listedBlocks blocks).map Access.write ++ l.map Access.read := by
  obtain ⟨headers, hle, hwrites⟩ := accessesWithin_writes hblocks
    (l.flatMap (Run.header 0x10) ++ List.replicate padding kNop)
  have hreads := length_le_headers l
  obtain ⟨fuel, hfuel⟩ : ∃ fuel, (writeBlocks blocks ++ (l.flatMap (Run.header 0x10) ++
      List.replicate padding kNop)).length = fuel + l.length + headers := by
    refine ⟨(writeBlocks blocks).length - headers +
      ((l.flatMap (Run.header 0x10)).length - l.length) + padding, ?_⟩
    rw [List.length_append, List.length_append, List.length_replicate]
    omega
  rw [accesses, hfuel, hwrites, accessesWithin_reads hl, accessesWithin_padding, List.append_nil]

/-! ## `Query::Make` -/

namespace Query

/-- One block of a request, by a combiner that is asked once for each register. -/
def makeBlock (frame : CanData) (block : Nat × List Resolution) : Option (UInt8 × CanData) :=
  let combiner : WriteCombiner :=
    { baseCommand := 0x10, startRegister := block.1, resolutions := block.2 }
  (combiner.writeCells frame (block.2.map fun _ => some [])).map fun (combiner, frame) =>
    (combiner.replySize, frame)

def makeBlocks (frame : CanData) : List (Nat × List Resolution) → Option (UInt8 × CanData)
  | [] => some (0, frame)
  | block :: blocks => do
    let (replySize, frame) ← makeBlock frame block
    let (rest, frame) ← makeBlocks frame blocks
    return (replySize + rest, frame)

/-- `Query::Make` into a frame, and the size it returns. A span of more than 512 registers in
`extra`, or no room in the frame, is an `abort`. -/
def makeFrame (frame : CanData) (format : Format) : Option (UInt8 × CanData) :=
  if ∃ block ∈ extraBlock format.extra, 512 < block.2.length then none
  else makeBlocks frame (blocks format)

theorem makeBlock_eq (frame : CanData) (block : Nat × List Resolution) :
    makeBlock frame block = (frame.write (readHeaders block.1 block.2)).map fun frame =>
      (UInt8.ofNat ((runs .kIgnore block.1 block.2).map Run.replyLength).sum, frame) := by
  let combiner : WriteCombiner :=
    { baseCommand := 0x10, startRegister := block.1, resolutions := block.2 }
  let values : List WriteCombiner.Value := block.2.map fun resolution => (resolution, some [])
  have hcells : values.map WriteCombiner.Value.cell = block.2.map fun r => (r, []) := by
    rw [List.map_map]
    rfl
  have hsnd : values.map Prod.snd = block.2.map fun _ => some [] := by
    rw [List.map_map]
    rfl
  have hfst : (block.2.map fun r => ((r, []) : Cell)).map Prod.fst = block.2 := by
    rw [List.map_map]
    exact List.map_id _
  have hsome : ∀ value ∈ values, value.1 ≠ .kIgnore → value.2.isSome := by
    intro value hvalue _
    obtain ⟨resolution, -, rfl⟩ := List.mem_map.mp hvalue
    rfl
  have hat : combiner.At (values.map WriteCombiner.Value.cell) := by
    rw [hcells]
    exact hfst.symm
  have hwrite := WriteCombiner.writeCells_eq hsome hat frame
  rw [hsnd, hcells] at hwrite
  rw [makeBlock, hwrite, readHeaders, writeCombiner_eq, Option.map_map]
  congr 1
  funext frame
  show (WriteCombiner.replySize _, frame) = _
  rw [WriteCombiner.replySize_passAll, replyLength_runs, hfst, UInt8.zero_add]
  rfl

theorem makeBlocks_eq (frame : CanData) (blocks : List (Nat × List Resolution)) :
    makeBlocks frame blocks =
      (frame.write (blocks.flatMap fun block => readHeaders block.1 block.2)).map fun frame =>
        (UInt8.ofNat ((blocks.flatMap fun block => runs .kIgnore block.1 block.2).map
          Run.replyLength).sum, frame) := by
  induction blocks generalizing frame with
  | nil =>
    show some (0, frame) = Option.map _ (frame.write [])
    rw [CanData.write_nil]
    rfl
  | cons block blocks ih =>
    rw [makeBlocks, makeBlock_eq, List.flatMap_cons, List.flatMap_cons, ← CanData.write_append,
      List.map_append, List.sum_append, UInt8.ofNat_add]
    cases frame.write (readHeaders block.1 block.2) with
    | none => rfl
    | some frame =>
      simp only [Option.map_some, Option.bind_eq_bind, Option.bind_some, ih]
      cases frame.write (blocks.flatMap fun block => readHeaders block.1 block.2) <;> rfl

/-- **`Query::Make` writes the request and returns what the runs make up in a reply.** -/
theorem makeFrame_eq {format : Format} (h : format.Wf) (frame : CanData) :
    makeFrame frame format = (frame.write (make format)).map fun frame =>
      (UInt8.ofNat ((formatRuns format).map Run.replyLength).sum, frame) := by
  have hspan : ¬ ∃ block ∈ extraBlock format.extra, 512 < block.2.length := by
    rintro ⟨block, hblock, hlt⟩
    unfold extraBlock at hblock
    split at hblock
    · rename_i first last hfirst hlast
      rw [List.mem_singleton] at hblock
      subst hblock
      have hle := h.span first hfirst last hlast
      dsimp only at hlt
      rw [extraResolutions_length] at hlt
      omega
    · cases hblock
  rw [makeFrame, if_neg hspan, makeBlocks_eq, make_eq_blocks, formatRuns]

end Query

/-! ## The answer -/

theorem Run.length_registers (run : Run) : run.registers.length = run.count := by
  rw [Run.registers, List.length_map, List.length_range]

theorem Run.resolution_of_mem {run : Run} {r : Nat × Resolution} (h : r ∈ run.registers) :
    r.2 = run.resolution := by
  obtain ⟨i, -, rfl⟩ := List.mem_map.mp h
  rfl

/-- A block of one run has its header and its values. -/
theorem encodeRegisters_run (values : Values) {run : Run} (hok : run.Ok) :
    (encodeRegisters 0x20 .kIgnore run.register (values.block run).2).length =
      run.replyLength := by
  have hsize : ∀ cell ∈ (values.block run).2, cell.1 ≠ .kIgnore →
      cell.2.length = cell.1.size := by
    intro cell hcell _
    obtain ⟨r, -, rfl⟩ := List.mem_map.mp hcell
    exact values.length_bytes r.1 r.2
  have hruns : runs .kIgnore run.register ((values.block run).2.map Prod.fst) = [run] := by
    have hall : (values.block run).2.map Prod.fst =
        List.replicate run.count run.resolution := by
      rw [Values.block, List.map_map]
      refine List.eq_replicate_iff.mpr ⟨?_, ?_⟩
      · rw [List.length_map, run.length_registers]
      · intro resolution hresolution
        obtain ⟨r, hr, rfl⟩ := List.mem_map.mp hresolution
        exact Run.resolution_of_mem hr
    rw [hall]
    exact runs_replicate hok.resolution run.register hok.count.1
  rw [WriteCombiner.length_encodeRegisters hsize, if_pos rfl, replyLength_runs, hruns, Nat.zero_add]
  exact List.sum_singleton

theorem reads_map_read (l : List Run) : reads (l.map Access.read) = l := by
  induction l with
  | nil => rfl
  | cons run l ih => rw [List.map_cons, reads, ih]

theorem reads_append_write (raws : List Raw) (rest : List Access) :
    reads (raws.map Access.write ++ rest) = reads rest := by
  induction raws with
  | nil => rfl
  | cons raw raws ih => rw [List.map_cons, List.cons_append, reads, ih]

/-- **The answer has the size that was announced.** -/
theorem length_reply (values : Values) {l : List Run} (hl : ∀ run ∈ l, run.Ok) :
    (values.reply (l.map Access.read)).length = (l.map Run.replyLength).sum := by
  rw [Values.reply, reads_map_read, MultiplexParser.encodeBlocks, List.length_flatMap, List.map_map]
  congr 1
  exact List.map_congr_left fun run hrun => encodeRegisters_run values (hl run hrun)

end Moteus
