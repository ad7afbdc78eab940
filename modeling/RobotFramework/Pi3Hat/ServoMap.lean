import RobotFramework.Setup.MotorMaps

/-!
# `mjbots/pi3hat/pi3hat_moteus_transport.h`: the option `--pi3hat-cfg`

`ParseServoMap` reads which motor is on which bus. It is not strict: `Split` does not see an empty
part at the end, and `std::stol` stops at what is no digit. Of a string that can be read strictly it
reads the same (`parseServoMap_of_decodeCfg`), and so of the string that `SETUP.sh` builds of the
motor map it reads the motor map (`parseServoMap_motorMap`).
-/

namespace Pi3Hat

open Cxx RobotFramework RobotFramework.Setup

/-! ## The code -/

/-- `Split` -/
def split (delim : Char) (message : Text) : List Text :=
  if message = [] then []
  else
    match _ : message.dropWhile (· ≠ delim) with
    | [] => [message]
    | _ :: rest => message.takeWhile (· ≠ delim) :: split delim rest
termination_by message.length
decreasing_by
  rename_i hrest
  have hle := (List.dropWhile_suffix (p := (· ≠ delim)) (l := message)).length_le
  rw [hrest, List.length_cons] at hle
  exact hle

def LONG_MIN : Int := -2 ^ 63

def LONG_MAX : Int := 2 ^ 63 - 1

/-- `std::stol`, which throws where it finds no number and where the number does not fit. -/
def stol (t : Text) : Option Int :=
  match (scanInt (t.dropWhile isSpace)).1 with
  | some n => if LONG_MIN ≤ n ∧ n ≤ LONG_MAX then some n else none
  | none => none

/-- What the conversion to `int` leaves of a `long`. -/
def toInt (n : Int) : Int := n.bmod (2 ^ 32)

/-- The ids of one bus; `insert` leaves an entry alone that is there. -/
def insertServos (busId : Int) (result : Std.TreeMap Int Int) :
    List Text → Option (Std.TreeMap Int Int)
  | [] => some result
  | servoid :: servoids => do
    let intServoId ← stol servoid
    insertServos busId (result.insertIfNew (toInt intServoId) (toInt busId)) servoids

/-- The buses, one by one. -/
def insertBuses (result : Std.TreeMap Int Int) : List Text → Option (Std.TreeMap Int Int)
  | [] => some result
  | bus :: buses =>
    match split '=' bus with
    | [busId, servoids] => do
      let busId ← stol busId
      let result ← insertServos busId result (split ',' servoids)
      insertBuses result buses
    | _ => none

def parseServoMap (strMap : Text) : Option (Std.TreeMap Int Int) :=
  insertBuses ∅ (split ';' strMap)

/-! ## Strict strings -/

theorem split_nil (delim : Char) : split delim [] = [] := by
  rw [split, if_pos rfl]

/-- Without an empty part all parts are seen. -/
theorem split_of_notMem {delim : Char} {t : Text} (h : [] ∉ t.splitOn delim) :
    split delim t = t.splitOn delim := by
  induction t using split.induct delim with
  | case1 => exact absurd (by simp) h
  | case2 t hne hrest =>
    have hdelim : delim ∉ t := by
      intro hmem
      have hall := List.dropWhile_eq_nil_iff.mp hrest delim hmem
      simp at hall
    rw [split, if_neg hne, List.splitOn_eq_singleton hdelim]
    split
    · rfl
    · rename_i heq
      rw [hrest] at heq
      cases heq
  | case3 t hne c rest hrest ih =>
    have hpart : delim ∉ t.takeWhile (· ≠ delim) := by
      intro hmem
      have hall := List.mem_takeWhile_imp hmem
      simp at hall
    have hc : c = delim := by
      have hhead := List.head?_dropWhile_not (fun c => decide (c ≠ delim)) t
      rw [hrest] at hhead
      simpa using hhead
    have ht : t = t.takeWhile (· ≠ delim) ++ delim :: rest := by
      have happend := List.takeWhile_append_dropWhile (p := fun c => decide (c ≠ delim)) (l := t)
      rw [hrest, hc] at happend
      exact happend.symm
    have hsplit : t.splitOn delim = t.takeWhile (· ≠ delim) :: rest.splitOn delim := by
      conv_lhs => rw [ht]
      exact List.splitOn_append_cons_self_of_not_mem hpart rest
    rw [hsplit, List.mem_cons, not_or] at h
    rw [split, if_neg hne, hsplit]
    split
    · rename_i heq
      rw [hrest] at heq
      cases heq
    · rename_i heq
      rw [hrest] at heq
      obtain ⟨-, rfl⟩ := List.cons.inj heq
      rw [ih h.2]

theorem stol_of_integer? {t : Text} {n : Int} (h : integer? t = some n) (hfits : Fits n) :
    stol t = some n := by
  have hspace : t.dropWhile isSpace = t := by
    cases t with
    | nil => rfl
    | cons c t =>
      apply List.dropWhile_cons_of_neg
      rcases mem_of_integer? h List.mem_cons_self with hdigit | rfl | rfl
      · rw [not_isSpace_of_isDigit hdigit]
        decide
      · decide
      · decide
  have hscan : (scanInt t).1 = some n := by
    unfold integer? at h
    split at h
    · rename_i heq
      rw [heq]
      exact h
    · cases h
  have hlong : LONG_MIN ≤ n ∧ n ≤ LONG_MAX := by
    obtain ⟨hmin, hmax⟩ := hfits
    unfold INT_MIN at hmin
    unfold INT_MAX at hmax
    unfold LONG_MIN LONG_MAX
    omega
  rw [stol, hspace, hscan]
  exact if_pos hlong

theorem toInt_of_fits {n : Int} (hfits : Fits n) : toInt n = n := by
  obtain ⟨hmin, hmax⟩ := hfits
  unfold INT_MIN at hmin
  unfold INT_MAX at hmax
  exact Int.bmod_eq_of_le (by omega) (by omega)

/-- Of several buses for a motor the first stays. -/
def insertAll (result : Std.TreeMap Int Int) (l : List (Int × Int)) : Std.TreeMap Int Int :=
  l.foldl (fun m p => m.insertIfNew p.1 p.2) result

theorem insertServos_of_decodeIds {bus : Int} (hbus : Fits bus) {ids : List Text} {l : List Int}
    (h : concatM (fun id => (integer? id).map ([·])) ids = some l) (hfits : ∀ id ∈ l, Fits id)
    (result : Std.TreeMap Int Int) :
    insertServos bus result ids = some (insertAll result (l.map fun id => (id, bus))) := by
  induction ids generalizing result l with
  | nil =>
    obtain rfl := Option.some.inj h
    rfl
  | cons id ids ih =>
    rw [concatM] at h
    cases hid : integer? id with
    | none => simp [hid] at h
    | some n =>
      cases hrest : concatM (fun id => (integer? id).map ([·])) ids with
      | none => simp [hid, hrest] at h
      | some ns =>
        simp only [hid, hrest, Option.map_some, Option.bind_eq_bind, Option.bind_some,
          List.singleton_append, pure, Option.some_inj] at h
        subst h
        obtain ⟨hn, hns⟩ := List.forall_mem_cons.mp hfits
        rw [insertServos, stol_of_integer? hid hn]
        simp only [Option.bind_eq_bind, Option.bind_some, toInt_of_fits hn, toInt_of_fits hbus]
        rw [ih hrest hns]
        rfl

theorem decodeIds_notMem {t : Text} {l : List Int} (h : decodeIds t = some l) :
    [] ∉ t.splitOn ',' := by
  intro hmem
  have hsome := isSome_of_mem (by rw [← decodeIds, h]; rfl) _ hmem
  cases hsome

theorem decodeIds_ne_nil {t : Text} {l : List Int} (h : decodeIds t = some l) : l ≠ [] := by
  obtain ⟨hall, rfl⟩ := concatM_eq_some_iff.mp h
  obtain ⟨w, hw⟩ := List.exists_mem_of_ne_nil _ (List.splitOn_ne_nil ',' t)
  obtain ⟨ns, hns⟩ := Option.isSome_iff_exists.mp (hall w hw)
  obtain ⟨n, -, rfl⟩ := Option.map_eq_some_iff.mp hns
  have hmem : n ∈ (t.splitOn ',').flatMap fun id => ((integer? id).map ([·])).getD [] := by
    rw [List.mem_flatMap]
    refine ⟨w, hw, ?_⟩
    rw [hns]
    exact List.mem_singleton_self n
  exact List.ne_nil_of_mem hmem

theorem decodeGroup_eq_some {g : Text} {l : List (Int × Int)} (h : decodeGroup g = some l) :
    ∃ bus ids n ns, g.splitOn '=' = [bus, ids] ∧ integer? bus = some n ∧
      decodeIds ids = some ns ∧ l = ns.map fun id => (id, n) := by
  unfold decodeGroup at h
  split at h
  · rename_i bus ids hsplit
    obtain ⟨n, hn, h⟩ := Option.bind_eq_some_iff.mp h
    obtain ⟨ns, hns, h⟩ := Option.bind_eq_some_iff.mp h
    exact ⟨bus, ids, n, ns, hsplit, hn, hns, (Option.some.inj h).symm⟩
  · cases h

theorem insertBuses_of_decodeGroups {gs : List Text} {l : List (Int × Int)}
    (h : concatM decodeGroup gs = some l) (hfits : ∀ p ∈ l, Fits p.1 ∧ Fits p.2)
    (result : Std.TreeMap Int Int) :
    insertBuses result gs = some (insertAll result l) := by
  induction gs generalizing result l with
  | nil =>
    obtain rfl := Option.some.inj h
    rfl
  | cons g gs ih =>
    rw [concatM] at h
    obtain ⟨l₁, hg, h⟩ := Option.bind_eq_some_iff.mp h
    obtain ⟨l₂, hgs, h⟩ := Option.bind_eq_some_iff.mp h
    obtain rfl := Option.some.inj h
    obtain ⟨hfits₁, hfits₂⟩ := List.forall_mem_append.mp hfits
    obtain ⟨bus, ids, n, ns, hsplit, hn, hns, rfl⟩ := decodeGroup_eq_some hg
    have hne : [] ∉ g.splitOn '=' := by
      rw [hsplit]
      intro hmem
      rcases List.mem_cons.mp hmem with rfl | hmem
      · cases hn
      · rw [← List.mem_singleton.mp hmem] at hns
        cases hns
    have hids : [] ∉ ids.splitOn ',' := decodeIds_notMem hns
    obtain ⟨id, hid⟩ := List.exists_mem_of_ne_nil _ (decodeIds_ne_nil hns)
    have hbus : Fits n := (hfits₁ _ (List.mem_map_of_mem hid)).2
    have hservos := insertServos_of_decodeIds hbus hns
      (fun id hid => (hfits₁ _ (List.mem_map_of_mem hid)).1) result
    rw [insertBuses, split_of_notMem hne, hsplit]
    simp only [stol_of_integer? hn hbus, Option.bind_eq_bind, Option.bind_some,
      split_of_notMem hids, hservos]
    rw [ih hgs hfits₂, insertAll, insertAll, insertAll, List.foldl_append]

/-- **What can be read strictly is read alike.** -/
theorem parseServoMap_of_decodeCfg {t : Text} {l : List (Int × Int)} (h : decodeCfg t = some l)
    (hfits : ∀ p ∈ l, Fits p.1 ∧ Fits p.2) : parseServoMap t = some (insertAll ∅ l) := by
  unfold decodeCfg at h
  split at h
  · rename_i hnil
    obtain rfl := Option.some.inj h
    rw [parseServoMap, hnil, split_nil]
    rfl
  · have hne : [] ∉ t.splitOn ';' := by
      intro hmem
      have hsome := isSome_of_mem (by rw [← decodeGroups, h]; rfl) _ hmem
      cases hsome
    rw [parseServoMap, split_of_notMem hne]
    exact insertBuses_of_decodeGroups h hfits ∅

/-! ## The string of `SETUP.sh` -/

/-- With a bus for every motor all of it is there. -/
theorem getElem?_insertAll {l : List (Int × Int)} (hl : (l.map Prod.fst).Nodup) {id bus : Int} :
    (insertAll ∅ l)[id]? = some bus ↔ (id, bus) ∈ l := by
  induction l using List.reverseRecOn generalizing id bus with
  | nil => simp [insertAll]
  | append_singleton l p ih =>
    rw [List.map_append, List.nodup_append] at hl
    obtain ⟨hnodup, -, hdisjoint⟩ := hl
    have hfresh : ∀ q ∈ l, q.1 ≠ p.1 := by
      intro q hq
      exact hdisjoint _ (List.mem_map_of_mem hq) _ (List.mem_singleton_self _)
    have hnew : p.1 ∉ insertAll ∅ l := by
      intro hmem
      obtain ⟨bus', hbus'⟩ :=
        Option.isSome_iff_exists.mp (Std.TreeMap.mem_iff_isSome_getElem?.mp hmem)
      exact hfresh _ ((ih hnodup).mp hbus') rfl
    rw [insertAll, List.foldl_append, List.foldl_cons, List.foldl_nil,
      Std.TreeMap.getElem?_insertIfNew, ← insertAll, List.mem_append, List.mem_singleton,
      ← ih hnodup]
    by_cases hkey : p.1 = id
    · rw [if_pos ⟨Std.LawfulEqCmp.compare_eq_iff_eq.mpr hkey, hnew⟩]
      have hnone : (insertAll ∅ l)[id]? ≠ some bus := by
        intro hbus
        exact hfresh _ ((ih hnodup).mp hbus) hkey.symm
      simp only [hnone, false_or, Option.some_inj]
      constructor
      · intro hbus
        exact Prod.ext hkey.symm hbus.symm
      · intro heq
        exact (congrArg Prod.snd heq).symm
    · rw [if_neg fun h => hkey (Std.LawfulEqCmp.eq_of_compare h.1)]
      have hne : (id, bus) ≠ p := fun heq => hkey (congrArg Prod.fst heq).symm
      simp only [hne, or_false]

/-- **Calibration and the robot talk about the same motors**, also as far as the transport reads the
string: it is the motor map that the robot loads, if its numbers are read as they stand and no
comment has got a bus. -/
theorem parseServoMap_motorMap {h : Shell.Host} {yaml : YamlCpp} {f : MotorYaml}
    (hload : LoadsAs yaml f) (hint : ∀ e ∈ f.entries, e.IsInt) (hcomments : NoCommentBus h f) :
    ∃ servoMap, parseServoMap (Shell.substituted (buildPi3hatCfg h (some f.text))) = some servoMap ∧
      ∀ id : Int, servoMap[id]? = (loadMotorMap yaml f.text)[id]? := by
  obtain ⟨l, hread, hperm⟩ := decodeCfg_of_noCommentBus hcomments
  have hfits : ∀ p ∈ l, Fits p.1 ∧ Fits p.2 := by
    intro p hp
    obtain ⟨e, he, rfl⟩ := List.mem_map.mp (hperm.subset hp)
    exact ⟨(hint e he).1.1, (hint e he).2.1⟩
  have hkeys : (l.map Prod.fst).Nodup := by
    rw [(hperm.map Prod.fst).nodup_iff, pairs, List.map_map]
    exact f.ids_nodup
  refine ⟨insertAll ∅ l, parseServoMap_of_decodeCfg hread hfits, ?_⟩
  intro id
  apply Option.ext
  intro bus
  rw [getElem?_insertAll hkeys, hperm.mem_iff, ← (toList_perm_pairs hload hint).mem_iff,
    Std.TreeMap.mem_toList_iff_getElem?_eq_some]

/-- The file as it stands. -/
theorem parseServoMap_shipped :
    ∃ servoMap, parseServoMap (Shell.substituted (buildPi3hatCfg plainHost (some shipped.text))) =
        some servoMap ∧
      ∀ id : Int, servoMap[id]? = (loadMotorMap (loadScalars shipped) shipped.text)[id]? := by
  have hfillers : shipped.fillers = [] := rfl
  refine parseServoMap_motorMap (loadsAs_loadScalars shipped) (by decide +kernel) ?_
  rw [NoCommentBus, hfillers]
  exact List.forall_mem_nil _

end Pi3Hat
