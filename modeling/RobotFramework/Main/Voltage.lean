import Mathlib.Data.Finset.Card
import Mathlib.Data.Nat.Cast.Basic
import RobotFramework.Main.Startup
import RobotFramework.Main.Steps
import RobotFramework.Math.WheelReal

/-!
# The battery voltage

The motor block stores the voltage of every motor that replied in `float voltage[4]` and averages
four slots. The number of those stored is the number of distinct sources among the replies, and
nothing makes it four: a missing motor leaves a slot unwritten that is read, and a fifth writes past
the array.

The block is followed access by access (`averaged`), and `voltage_right_iff` says that it is right
in exactly the cycles with four sources.
-/

namespace RobotFramework.Main

open Cxx Moteus

variable {K : Type}

/-! ## An array and the accesses to it -/

inductive Access where
  | write (slot : Nat)
  | read (slot : Nat)
deriving DecidableEq

def Access.slot : Access → Nat
  | .write i => i
  | .read i => i

/-- `float voltage[4]`: what its slots hold, and the accesses so far. -/
structure Slots (K : Type) where
  voltage : Nat → Double K
  accesses : List Access

namespace Slots

def write (m : Slots K) (i : Nat) (v : Double K) : Slots K :=
  { voltage := Function.update m.voltage i v, accesses := m.accesses ++ [.write i] }

/-- The loop over `servo_status`: `voltage[i] = r.voltage` and `i++`. -/
def store : List (Double K) → Nat → Slots K → Slots K
  | [], _, m => m
  | v :: vs, i, m => store vs (i + 1) (m.write i v)

/-- `sum += voltage[i]` -/
def accumulate [Add K] (acc : Slots K × Double K) (i : Nat) : Slots K × Double K :=
  ({ acc.1 with accesses := acc.1.accesses ++ [.read i] }, acc.2.add (acc.1.voltage i))

/-- Both loops of the block, on the voltages of the motors that replied. -/
def averaged [Field K] (stack : Nat → Double K) (voltages : List (Double K)) : Slots K × Double K :=
  let m := store voltages 0 { voltage := stack, accesses := [] }
  let (m, sum) := (List.range 4).foldl accumulate (m, .num 0)
  (m, sum.divPos (4 : Nat))

/-- The accesses stay inside of four slots, and each slot is written before it is read. -/
structure Safe (accesses : List Access) : Prop where
  inside : ∀ a ∈ accesses, a.slot < 4
  written : ∀ pre i post, accesses = pre ++ .read i :: post → .write i ∈ pre

@[simp] theorem voltage_write_self (m : Slots K) (i : Nat) (v : Double K) :
    (m.write i v).voltage i = v := Function.update_self ..

theorem voltage_write_of_ne (m : Slots K) {i k : Nat} (h : k ≠ i) (v : Double K) :
    (m.write i v).voltage k = m.voltage k := Function.update_of_ne h ..

theorem accesses_store (vs : List (Double K)) (i : Nat) (m : Slots K) :
    (store vs i m).accesses = m.accesses ++ (List.range' i vs.length).map .write := by
  induction vs generalizing i m with
  | nil => simp [store]
  | cons v vs ih =>
    rw [store, ih, List.length_cons, List.range'_succ, List.map_cons, write, List.append_assoc]
    rfl

theorem voltage_store (vs : List (Double K)) (i : Nat) (m : Slots K) (k : Nat) :
    (store vs i m).voltage k = if k < i then m.voltage k else vs[k - i]?.getD (m.voltage k) := by
  induction vs generalizing i m with
  | nil => simp [store]
  | cons v vs ih =>
    rw [store, ih]
    rcases Nat.lt_trichotomy k i with hlt | rfl | hgt
    · rw [if_pos (by omega), if_pos hlt, voltage_write_of_ne m (by omega)]
    · rw [if_pos (by omega), if_neg (by omega), voltage_write_self, Nat.sub_self]
      rfl
    · have hstep : k - i = (k - (i + 1)) + 1 := by omega
      rw [if_neg (by omega), if_neg (by omega), voltage_write_of_ne m (by omega), hstep,
        List.getElem?_cons_succ]

section

variable [Field K]

theorem foldl_accumulate (is : List Nat) (m : Slots K) (sum : Double K) :
    is.foldl accumulate (m, sum) =
      ({ m with accesses := m.accesses ++ is.map .read },
        is.foldl (fun sum i => sum.add (m.voltage i)) sum) := by
  induction is generalizing m sum with
  | nil => simp
  | cons i is ih =>
    rw [List.foldl_cons, accumulate, ih, List.map_cons, List.append_assoc]
    rfl

theorem accesses_averaged (stack : Nat → Double K) (voltages : List (Double K)) :
    (averaged stack voltages).1.accesses =
      (List.range voltages.length).map .write ++ (List.range 4).map .read := by
  unfold averaged
  simp only [foldl_accumulate, accesses_store, List.nil_append, List.range_eq_range']

/-- What the block puts into `sender_msg.voltage`. -/
theorem averaged_snd (stack : Nat → Double K) (voltages : List (Double K)) :
    (averaged stack voltages).2 = averageVoltage stack voltages := by
  unfold averaged averageVoltage
  simp only [foldl_accumulate, voltage_store, Nat.not_lt_zero, if_false, Nat.sub_zero,
    Nat.cast_ofNat]

end

theorem safe_iff (n : Nat) :
    Safe ((List.range n).map .write ++ (List.range 4).map .read) ↔ n = 4 := by
  have hreads : ∀ i < 4, Access.read i ∈ (List.range n).map .write ++ (List.range 4).map .read :=
    fun i hi => List.mem_append_right _ (List.mem_map.mpr ⟨i, List.mem_range.mpr hi, rfl⟩)
  have hwrites : ∀ i, Access.write i ∈ (List.range n).map .write ++ (List.range 4).map .read ↔
      i < n := by
    simp
  constructor
  · intro h
    have hle : n ≤ 4 := by
      by_contra hgt
      have hlt : Access.slot (.write 4) < 4 := h.inside _ ((hwrites 4).mpr (by omega))
      exact absurd hlt (Nat.lt_irrefl 4)
    by_contra hne
    -- With fewer writes, the first slot without one is read.
    obtain ⟨pre, post, hsplit⟩ := List.append_of_mem (hreads n (by omega))
    have hmem := h.written pre n post hsplit
    have hlt : n < n := (hwrites n).mp (hsplit ▸ List.mem_append_left _ hmem)
    exact Nat.lt_irrefl n hlt
  · rintro rfl
    refine ⟨by decide, ?_⟩
    intro pre i post hsplit
    have hi : i < 4 := by
      have hmem : Access.read i ∈ (List.range 4).map .write ++ (List.range 4).map .read :=
        hsplit ▸ List.mem_append_right _ List.mem_cons_self
      simpa using hmem
    have hwrite : Access.write i ∈ (List.range 4).map Access.write :=
      List.mem_map.mpr ⟨i, List.mem_range.mpr hi, rfl⟩
    rcases List.append_eq_append_iff.mp hsplit with ⟨as, rfl, -⟩ | ⟨bs, hwrites', hrest⟩
    · exact List.mem_append_left _ hwrite
    · cases bs with
      | nil =>
        rw [List.append_nil] at hwrites'
        exact hwrites' ▸ hwrite
      | cons b bs =>
        -- A read is no write.
        obtain ⟨rfl, -⟩ := List.cons.inj hrest
        have hmem : Access.read i ∈ (List.range 4).map Access.write :=
          hwrites' ▸ List.mem_append_right _ List.mem_cons_self
        simp at hmem

end Slots

/-! ## The replies -/

theorem mem_foldl_insert {α β : Type} {key : α → Int} {value : α → β} (l : List α) (k : Int) :
    k ∈ l.foldl (fun m a => m.insert (key a) (value a)) (∅ : Std.TreeMap Int β) ↔
      k ∈ l.map key := by
  induction l using List.reverseRecOn with
  | nil => simp
  | append_singleton l a ih =>
    rw [List.foldl_append, List.foldl_cons, List.foldl_nil, Std.TreeMap.mem_insert, ih,
      List.map_append, List.mem_append, or_comm, Std.LawfulEqCmp.compare_eq_iff_eq]
    simp [eq_comm]

/-- A map built by insertions has one entry for each distinct key. -/
theorem length_toList_foldl_insert {α β : Type} {key : α → Int} {value : α → β} (l : List α) :
    (l.foldl (fun m a => m.insert (key a) (value a)) (∅ : Std.TreeMap Int β)).toList.length =
      (l.map key).toFinset.card := by
  rw [Std.TreeMap.length_toList]
  induction l using List.reverseRecOn with
  | nil => rfl
  | append_singleton l a ih =>
    have hfinset : ((l ++ [a]).map key).toFinset = insert (key a) (l.map key).toFinset := by
      ext k
      simp
    have hmem : key a ∈ l.foldl (fun m a => m.insert (key a) (value a)) (∅ : Std.TreeMap Int β) ↔
        key a ∈ l.map key := mem_foldl_insert l (key a)
    rw [List.foldl_append, List.foldl_cons, List.foldl_nil, Std.TreeMap.size_insert, ih, hfinset]
    by_cases h : key a ∈ l.map key
    · rw [if_pos (Std.TreeMap.mem_iff_contains.mp (hmem.mpr h)),
        Finset.insert_eq_of_mem (List.mem_toFinset.mpr h)]
    · rw [if_neg fun hc => h (hmem.mp (Std.TreeMap.mem_iff_contains.mpr hc)),
        Finset.card_insert_of_notMem fun hc => h (List.mem_toFinset.mp hc)]

section

variable [Field K] [LinearOrder K] [FloorRing K] [Libm K]

/-- The reply frames of the next motor cycle. -/
def State.replies (s : State K) (cfg : Config K) (input : Input K) : List (ReplyFrame K) :=
  let frames := Telemetry.commandFrames cfg.controllers s.velocityMap
  if frames.isEmpty then [] else input.bus (frames.map (·.2))

/-- The voltages of the motors that replied. -/
def State.voltages (s : State K) (cfg : Config K) (input : Input K) : List (Double K) :=
  (s.servoStatus cfg input).map fun p => p.2.voltage

theorem length_voltages (s : State K) (cfg : Config K) (input : Input K) :
    (s.voltages cfg input).length = ((s.replies cfg input).map (·.source)).toFinset.card := by
  unfold State.voltages
  rw [List.length_map]
  exact length_toList_foldl_insert _

def mean (voltages : List (Double K)) : Double K :=
  (voltages.foldl Double.add (.num 0)).divPos voltages.length

/-- What is asked of a motor cycle: that its accesses to `voltage[]` are safe and, if a motor
replied, that `sender_msg.voltage` becomes the mean of the voltages of those that did. -/
def VoltageRight (cfg : Config K) (input : Input K) (s : State K) : Prop :=
  Slots.Safe (Slots.averaged input.stack (s.voltages cfg input)).1.accesses ∧
    (s.voltages cfg input ≠ [] →
      (motor cfg input s).1.senderMsg.voltage = mean (s.voltages cfg input))

omit [LinearOrder K] [FloorRing K] [Libm K] in
theorem averageVoltage_of_length (stack : Nat → Double K) {voltages : List (Double K)}
    (h : voltages.length = 4) : averageVoltage stack voltages = mean voltages := by
  have hcount : (voltages.length : K) = 4 := by rw [h, Nat.cast_ofNat]
  rw [mean, hcount]
  match voltages, h with
  | [a, b, c, d], _ => rfl

theorem voltage_motor {cfg : Config K} {input : Input K} {s : State K} (h : s.cycles cfg) :
    (motor cfg input s).1.senderMsg.voltage =
      (Slots.averaged input.stack (s.voltages cfg input)).2 := by
  rw [motor_due h, Slots.averaged_snd]
  rfl

/-- **When a motor cycle averages rightly**: with replies from exactly four sources. -/
theorem voltage_right_iff (cfg : Config K) (input : Input K) (s : State K) (h : s.cycles cfg) :
    VoltageRight cfg input s ↔ ((s.replies cfg input).map (·.source)).toFinset.card = 4 := by
  rw [← length_voltages, VoltageRight, Slots.accesses_averaged, Slots.safe_iff]
  constructor
  · intro hright
    exact hright.1
  · intro hfour
    refine ⟨hfour, fun _ => ?_⟩
    rw [voltage_motor h, Slots.averaged_snd, averageVoltage_of_length _ hfour]

end

/-- A step on the bench in which the first `n` motors answer, with 24 V each. -/
noncomputable def voltageInput (n : Nat) : Input ℝ :=
  { Input.bench ℝ with
    bus := fun frames =>
      (frames.take n).map fun f => ⟨f.destination, [⟨Register.kVoltage, .num 24⟩]⟩ }

/-- The bench before its first motor cycle. -/
noncomputable def voltageState : State ℝ :=
  (World.bench ℝ).after (List.replicate 3 (.step (.bench ℝ)))

theorem voltage_right_four :
    voltageState.voltages (World.bench ℝ).config (voltageInput 4) = List.replicate 4 (.num 24) ∧
      VoltageRight (World.bench ℝ).config (voltageInput 4) voltageState :=
  ⟨rfl, (voltage_right_iff _ _ _ (by decide +kernel)).mpr (by decide +kernel)⟩

/-- One motor does not reply, and the slot that it leaves is averaged all the same. -/
theorem voltage_read_unwritten :
    voltageState.cycles (World.bench ℝ).config ∧
    (Slots.averaged (voltageInput 3).stack
      (voltageState.voltages (World.bench ℝ).config (voltageInput 3))).1.accesses =
        [.write 0, .write 1, .write 2, .read 0, .read 1, .read 2, .read 3] := by
  decide +kernel

end RobotFramework.Main
