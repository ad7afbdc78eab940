import Mathlib.Algebra.Order.BigOperators.Group.List
import Mathlib.Data.List.Sort
import RobotFramework.Setup.Config
import RobotFramework.Setup.MotorIds

/-!
# Calibration and the robot read the same motors

`Telemetry::YAML_Load_MotorMap` and the two functions of `SETUP.sh` read `config/Motor.yaml` each in
its own way. They agree as long as no comment gets in the way of the script and no number means
something else in octal (`Consistent`).
-/

namespace RobotFramework.Setup

open Cxx Shell

/-- What calibration is told is the motor map of the robot, and its keys. -/
def MotorMapsAgree (h : Host) (yaml : YamlCpp) (text : Text) : Prop :=
  (∃ cfg, decodeCfg (substituted (buildPi3hatCfg h (some text))) = some cfg ∧
    cfg.Perm (loadMotorMap yaml text).toList) ∧
  ∃ ids, decodeIdList (substituted (getMotorIds (some text))) = some ids ∧
    ids.Perm (loadMotorMap yaml text).keys

/-- The numbers are the same for all three, and the comments are none for the script. -/
structure Consistent (h : Host) (f : MotorYaml) : Prop where
  isInt : ∀ e ∈ f.entries, e.IsInt
  unnamed : ∀ e ∈ f.entries, ¬ Named e
  named : CommentsNamed f
  noBus : NoCommentBus h f ∨ Stopped h f ∧ f.entries = []

variable {h : Host} {yaml : YamlCpp} {f : MotorYaml}

theorem nodup_toList (m : Std.TreeMap Int Int) : m.toList.Nodup := by
  have hkeys := m.nodup_keys
  rw [← Std.TreeMap.map_fst_toList_eq_keys] at hkeys
  exact List.Nodup.of_map _ hkeys

theorem toList_perm_pairs (hload : LoadsAs yaml f) (hint : ∀ e ∈ f.entries, e.IsInt) :
    (loadMotorMap yaml f.text).toList.Perm (pairs f) := by
  rw [List.perm_ext_iff_of_nodup (nodup_toList _) (nodup_pairs f)]
  rintro ⟨id, bus⟩
  rw [mem_loadMotorMap_iff hload hint, pairs, List.mem_map]
  simp [pair]

theorem keys_perm_ids (hload : LoadsAs yaml f) (hint : ∀ e ∈ f.entries, e.IsInt) :
    (loadMotorMap yaml f.text).keys.Perm (f.entries.map fun e => e.id.value) := by
  have hids : (pairs f).map Prod.fst = f.entries.map fun e => e.id.value := List.map_map
  rw [← Std.TreeMap.map_fst_toList_eq_keys, ← hids]
  exact (toList_perm_pairs hload hint).map Prod.fst

/-- Numbers that make the same ids are read as these ids: none is read as a larger one. -/
theorem natAbs_eq_of_perm {es : List MotorEntry} {read : MotorEntry → Int × Int}
    (hread : ∀ e ∈ es, (read e).1.natAbs ≤ e.id.value.natAbs)
    (hperm : (es.map fun e => e.id.value).Perm (es.map fun e => (read e).1)) :
    ∀ e ∈ es, (read e).1.natAbs = e.id.value.natAbs := by
  intro e he
  apply Nat.le_antisymm (hread e he)
  by_contra hlt
  have hsum := List.sum_lt_sum (fun e => (read e).1.natAbs) (fun e => e.id.value.natAbs) hread
    ⟨e, he, Nat.lt_of_not_le hlt⟩
  have heq := (hperm.map Int.natAbs).sum_eq
  rw [List.map_map, List.map_map] at heq
  exact hsum.ne heq.symm

/-- **A map that agrees with the file has read its numbers as they stand.** -/
theorem isInt_of_perm (hload : LoadsAs yaml f)
    (hperm : (pairs f).Perm (loadMotorMap yaml f.text).toList) : ∀ e ∈ f.entries, e.IsInt := by
  cases hentries : motorEntries yaml f.text with
  | none =>
    -- In the fallback there are only small numbers.
    rw [loadMotorMap_of_none hentries] at hperm
    intro e he
    have hfallback : ∀ p ∈ [((1 : Int), (1 : Int)), (2, 2), (3, 3), (4, 4)],
        p.1.natAbs < 8 ∧ p.2.natAbs < 8 := by decide
    obtain ⟨hid, hbus⟩ := hfallback (pair e) (hperm.subset (List.mem_map_of_mem he))
    exact ⟨⟨fits_of_natAbs_lt hid, fun _ => hid⟩, fits_of_natAbs_lt hbus, fun _ => hbus⟩
  | some l =>
    obtain ⟨read, rfl, hread⟩ := motorEntries_eq_some hload hentries
    have hmem : ∀ e ∈ f.entries, ∃ e' ∈ f.entries,
        (read e').1 = e.id.value ∧ (read e').2 = e.bus.value := by
      intro e he
      have hpair : (e.id.value, e.bus.value) ∈ (loadMotorMap yaml f.text).toList :=
        hperm.subset (List.mem_map_of_mem he)
      rw [loadMotorMap, hentries, Telemetry.yamlLoadMotorMap] at hpair
      obtain ⟨p, hp, hkey, hvalue⟩ := mem_toList_foldl_insert hpair
      obtain ⟨e', he', rfl⟩ := List.mem_map.mp hp
      exact ⟨e', he', hkey, hvalue⟩
    have hids : (f.entries.map fun e => e.id.value).Perm (f.entries.map fun e => (read e).1) := by
      apply (List.subperm_of_subset f.ids_nodup _).perm_of_length_le
      · simp [MotorYaml.entries]
      · intro id hid
        obtain ⟨e, he, rfl⟩ := List.mem_map.mp hid
        obtain ⟨e', he', hsame, -⟩ := hmem e he
        exact List.mem_map.mpr ⟨e', he', hsame⟩
    have hsame := natAbs_eq_of_perm
      (fun e he => (yaml.asInt_some (hread e he).1).1) hids
    have hid : ∀ e ∈ f.entries, e.id.IsInt := fun e he =>
      (yaml.asInt_some (hread e he).1).2 (hsame e he)
    intro e he
    refine ⟨hid e he, ?_⟩
    obtain ⟨e', he', hkey, hvalue⟩ := hmem e he
    have hread' := (hread e' he').1
    rw [yaml.asInt_of_isInt (hid e' he'), Option.some_inj] at hread'
    have hids' : e'.id.value = e.id.value := hread'.trans hkey
    obtain rfl : e' = e := List.inj_on_of_nodup_map f.ids_nodup he' he hids'
    exact (yaml.asInt_some (hread e' he').2).2 (congrArg Int.natAbs hvalue)

/-- A map without motors is that of a file without entries. -/
theorem entries_eq_nil (hload : LoadsAs yaml f) (h : (loadMotorMap yaml f.text).toList = []) :
    f.entries = [] := by
  cases hentries : motorEntries yaml f.text with
  | none =>
    rw [loadMotorMap_of_none hentries] at h
    cases h
  | some l =>
    obtain ⟨read, rfl, -⟩ := motorEntries_eq_some hload hentries
    -- A map into which something was inserted is not empty.
    rcases List.eq_nil_or_concat' f.entries with hnil | ⟨es, e, heq⟩
    · exact hnil
    · rw [loadMotorMap, hentries, Telemetry.yamlLoadMotorMap, heq, List.map_append,
        List.foldl_append, List.map_singleton, List.foldl_cons, List.foldl_nil] at h
      have hmem : ((read e).1, (read e).2) ∈
          ((es.map read).foldl (fun motorMap e => motorMap.insert e.1 e.2)
            (∅ : Std.TreeMap Int Int) |>.insert (read e).1 (read e).2).toList := by
        rw [Std.TreeMap.mem_toList_iff_getElem?_eq_some, Std.TreeMap.getElem?_insert_self]
      rw [h] at hmem
      cases hmem

/-! ## Two files -/

/-- A machine where no file matches a pattern. -/
def plainHost : Host where
  echo args := [' '].intercalate args ++ ['\n']
  sortN := List.insertionSort fun l l' => (integer? l).getD 0 ≤ (integer? l').getD 0
  glob w := [w]
  echo_plain _ _ := rfl
  sortN_perm ls := List.perm_insertionSort _ ls
  glob_plain _ _ := rfl
  glob_ne_nil _ := List.cons_ne_nil _ _

/-- `as<int>` of a scalar of digits. -/
def readInt (scalar : Text) : Option Int :=
  let (neg, ds) := takeSign scalar
  if ds = [] ∨ ds.all Char.isDigit = false then none
  else if ds.head? = some '0' then
    let i := signed neg (octalValue ds)
    if ds.all isOctal = true ∧ Fits i then some i else none
  else
    let i := signed neg (digitsValue ds)
    if Fits i then some i else none

example : (["7", "010", "08", "-0"].map fun t => readInt t.toList) =
    [some 7, some 8, none, some 0] := by
  decide

/-- A parser that can load one file. -/
def loadScalars (f : MotorYaml) : YamlCpp where
  load t := if t = f.text then some (f.entries.map fun e => (e.id.text, e.bus.text)) else none
  asInt := readInt
  asInt_decimal scalar hne hdigits hzero := by
    have hscalar : ¬ ((takeSign scalar).2 = [] ∨
        (takeSign scalar).2.all Char.isDigit = false) := by simpa [hne] using hdigits
    simp only [readInt, if_neg hscalar, if_neg hzero]
  asInt_octal scalar hdigits hzero := by
    have hne : (takeSign scalar).2 ≠ [] := by
      intro hnil
      rw [hnil] at hzero
      cases hzero
    have hscalar : ¬ ((takeSign scalar).2 = [] ∨
        (takeSign scalar).2.all Char.isDigit = false) := by simpa [hne] using hdigits
    simp only [readInt, if_neg hscalar, if_pos hzero]

theorem loadsAs_loadScalars (f : MotorYaml) : LoadsAs (loadScalars f) f := if_pos rfl

def numeral (i : Int) : Numeral := ⟨intText i, i, integer?_intText i⟩

def space : Blanks := ⟨[' '], by decide⟩

/-- The line of a motor in the file of the repository. -/
def shippedEntry (i : Int) (comment : Comment) : MotorEntry where
  id := numeral i
  bus := numeral i
  gap := space
  gap_ne_nil := by decide
  lineEnd := ⟨space, some comment, fun _ => by decide⟩

/-- `config/Motor.yaml` -/
def shipped : MotorYaml where
  before := []
  headerEnd := ⟨⟨[], by decide⟩, none, by decide⟩
  indent := 2
  body := [
    .entry (shippedEntry 1 ⟨" MOTOR ID 1 Mapped to BUS 1".toList, by decide⟩),
    .entry (shippedEntry 2 ⟨" MOTOR ID 2 Mapped to BUS 2".toList, by decide⟩),
    .entry (shippedEntry 3 ⟨" MOTOR ID 3 Mapped to BUS 3".toList, by decide⟩),
    .entry (shippedEntry 4 ⟨" MOTOR ID 4 Mapped to BUS 4".toList, by decide⟩)]
  ended := true
  indent_pos := by decide
  ids_nodup := by decide

/-- A file with a comment on a line of its own. -/
def commented : MotorYaml where
  before := []
  headerEnd := ⟨⟨[], by decide⟩, none, by decide⟩
  indent := 2
  body := [
    .filler (.comment ⟨[' ', ' '], by decide⟩ ⟨" wheel: left".toList, by decide⟩),
    .entry
      { id := numeral 1
        bus := numeral 1
        gap := space
        gap_ne_nil := by decide
        lineEnd := ⟨⟨[], by decide⟩, none, by decide⟩ }]
  ended := true
  indent_pos := by decide
  ids_nodup := by decide

example : commented.text = "motorMap:\n  # wheel: left\n  1: 1\n".toList := by decide

/-! ## Agreement -/

end RobotFramework.Setup
