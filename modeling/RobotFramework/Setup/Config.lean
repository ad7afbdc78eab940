import Mathlib.Data.List.Nodup
import Mathlib.Data.List.Pairwise
import RobotFramework.Setup.BusMap
import RobotFramework.Setup.Encoding

/-!
# The string of `build_pi3hat_cfg`

The groups of the second loop are those of the entries as long as no comment has got a bus of its
own. A comment without a bus at all stops the function, and the string is empty.
-/

namespace RobotFramework.Setup

open Cxx Shell Lines

variable {h : Host} {f : MotorYaml} {busMap : BusMap}

/-- What an entry says. -/
def pair (e : MotorEntry) : Int × Int := (e.id.value, e.bus.value)

/-- The motors of the file and their buses. -/
def pairs (f : MotorYaml) : List (Int × Int) := f.entries.map pair

/-- The entries of one bus, as it is written. -/
def busEntries (f : MotorYaml) (bus : Text) : List MotorEntry := f.entries.filter (·.bus.text = bus)

/-- What the first loop made of the file. -/
structure BuiltFrom (h : Host) (f : MotorYaml) (busMap : BusMap) : Prop where
  loop : (motorLines f.text).foldlM (addMotor h) ∅ = some busMap
  bus_ne_nil : ∀ r ∈ records h (motorLines f.text), r.2 ≠ []
  get : ∀ bus : Text, busMap[bus]? = joined (records h (motorLines f.text)) bus

theorem exists_builtFrom (h : Host) (f : MotorYaml) :
    ((motorLines f.text).foldlM (addMotor h) ∅ = none ∧
      ∃ r ∈ records h (motorLines f.text), r.2 = []) ∨ ∃ busMap, BuiltFrom h f busMap :=
  (foldlM_addMotor (motorLines f.text)).imp_right
    fun ⟨busMap, hloop, hne, hget⟩ => ⟨busMap, hloop, hne, hget⟩

/-! ## One group -/

/-- A bus of entries, and of no comment. -/
def Clean (h : Host) (f : MotorYaml) (bus : Text) : Prop :=
  (∃ e ∈ f.entries, e.bus.text = bus) ∧
    ∀ r ∈ records h (motorLines f.text), r.2 = bus → '#' ∉ r.1

theorem busEntries_ne_nil {bus : Text} (hclean : Clean h f bus) : busEntries f bus ≠ [] := by
  obtain ⟨⟨e, he, hbus⟩, -⟩ := hclean
  rw [busEntries, ne_eq, List.filter_eq_nil_iff]
  exact fun hnone => hnone e he (by simpa using hbus)

theorem decodeGroups_of_clean (hb : BuiltFrom h f busMap) {bus : Text} (hclean : Clean h f bus) :
    decodeGroups (group busMap bus) = some ((busEntries f bus).map pair) := by
  have hne := busEntries_ne_nil hclean
  obtain ⟨⟨e, he, rfl⟩, hrecords⟩ := hclean
  have hids : ((busEntries f e.bus.text).map MotorEntry.id) ≠ [] := by simpa using hne
  have hread := decodeGroups_group hids e.bus
  rw [List.map_map, List.map_map] at hread
  rw [group, hb.get, joined_of_clean hrecords, joined_entries, ← busEntries, if_neg hne,
    Option.getD_some]
  refine hread.trans (congrArg some (List.map_congr_left fun e' he' => ?_))
  have htext : e'.bus.text = e.bus.text := by simpa using (List.mem_filter.mp he').2
  -- The same text is read as the same bus.
  have hvalue : e'.bus.value = e.bus.value := by
    have hreads := e'.bus.reads
    rw [htext, e.bus.reads] at hreads
    exact (Option.some.inj hreads).symm
  rw [Function.comp_apply, pair, hvalue]

/-- Only the group of a clean bus can be read. -/
theorem clean_of_decodeGroups (hb : BuiltFrom h f busMap) {bus : Text}
    (hread : (decodeGroups (group busMap bus)).isSome = true) : Clean h f bus := by
  have hhash := hash_notMem_groups hread
  have hget := hb.get bus
  unfold joined at hget
  split at hget
  -- A word that is no key makes a group without ids.
  · rw [group, hget, Option.getD_none, decodeGroups_open] at hread
    cases hread
  · rename_i hne
    rw [group, hget, Option.getD_some, List.mem_append, List.mem_cons, not_or, not_or] at hhash
    have hrecords : ∀ r ∈ records h (motorLines f.text), r.2 = bus → '#' ∉ r.1 := by
      intro r hr hbus hmem
      have hfilter : r ∈ (records h (motorLines f.text)).filter (·.2 = bus) :=
        List.mem_filter.mpr ⟨hr, by simpa using hbus⟩
      exact hhash.2.2 (mem_intercalate_of_mem (List.mem_map_of_mem hfilter) hmem)
    refine ⟨?_, hrecords⟩
    obtain ⟨r, hr⟩ := List.exists_mem_of_ne_nil _ hne
    obtain ⟨hr, hbus⟩ := List.mem_filter.mp hr
    have hbus : r.2 = bus := by simpa using hbus
    rcases mem_records_text_iff.mp hr with ⟨e, he, rfl⟩ | ⟨filler, -, hfiller⟩
    · exact ⟨e, he, hbus⟩
    · exact absurd (mem_fillerRecords hfiller).2.2.2 (hrecords r hr hbus)

/-! ## The words of the keys -/

theorem mem_keys_iff (hb : BuiltFrom h f busMap) {bus : Text} :
    bus ∈ busMap.keys ↔ ∃ r ∈ records h (motorLines f.text), r.2 = bus := by
  rw [Std.TreeMap.mem_keys, Std.TreeMap.mem_iff_isSome_getElem?, hb.get, joined]
  split
  · rename_i hnil
    rw [List.filter_eq_nil_iff] at hnil
    refine iff_of_false (by simp) ?_
    rintro ⟨r, hr, hbus⟩
    exact hnil r hr (by simpa using hbus)
  · rename_i hne
    refine iff_of_true rfl ?_
    obtain ⟨r, hr⟩ := List.exists_mem_of_ne_nil _ hne
    obtain ⟨hr, hbus⟩ := List.mem_filter.mp hr
    exact ⟨r, hr, by simpa using hbus⟩

/-- What the second loop makes of a key. -/
def busWords (h : Host) (key : Text) : List Text := (fields key).flatMap h.glob

theorem buses_perm_keys : (buses h busMap).Perm (busMap.keys.flatMap (busWords h)) := by
  have hperm := buses_perm (h := h) busMap
  rwa [List.flatMap_assoc] at hperm

theorem busWords_eq_nil_iff {key : Text} : busWords h key = [] ↔ fields key = [] := by
  unfold busWords
  rw [List.flatMap_eq_nil_iff]
  constructor
  · intro hnil
    cases hfields : fields key with
    | nil => rfl
    | cons w ws => exact absurd (hnil w (hfields ▸ List.mem_cons_self)) (h.glob_ne_nil w)
  · intro hnil w hw
    rw [hnil] at hw
    cases hw

theorem busWords_numeral (n : Numeral) : busWords h n.text = [n.text] := by
  have hplain : ∀ c ∈ n.text, isIfs c = false := fun c hc => isIfs_of_isPlain (n.isPlain c hc)
  have hglob : ∀ c ∈ n.text, c ∉ "*?[\\".toList := by
    intro c hc hmem
    have hpattern : ∀ d ∈ "*?[\\".toList, d.isDigit = false ∧ d ≠ '-' ∧ d ≠ '+' := by decide
    exact n.notMem (hpattern c hmem) hc
  unfold busWords
  rw [fields_of_plain n.text_ne_nil hplain, List.flatMap_singleton, h.glob_plain _ hglob]

theorem mem_keys_of_mem_entries (hb : BuiltFrom h f busMap) {e : MotorEntry} (he : e ∈ f.entries) :
    e.bus.text ∈ busMap.keys :=
  (mem_keys_iff hb).mpr
    ⟨(e.id.text, e.bus.text), mem_records_text_iff.mpr (.inl ⟨e, he, rfl⟩), rfl⟩

theorem mem_buses_of_mem_entries (hb : BuiltFrom h f busMap) {e : MotorEntry} (he : e ∈ f.entries) :
    e.bus.text ∈ buses h busMap := by
  rw [buses_perm_keys.mem_iff, List.mem_flatMap]
  refine ⟨_, mem_keys_of_mem_entries hb he, ?_⟩
  rw [busWords_numeral]
  exact List.mem_singleton_self _

/-! ## The string -/

/-- No id ends with a newline. -/
theorem substituted_id {lines : List Text} {r : Text × Text} (hr : r ∈ records h lines) :
    substituted r.1 = r.1 := by
  obtain ⟨line, -, rfl⟩ := List.mem_map.mp (List.mem_of_mem_filter hr)
  exact substituted_idem _

theorem substituted_group (hb : BuiltFrom h f busMap) (bus : Text) :
    substituted (group busMap bus) = group busMap bus := by
  have hequals : substituted ['='] = ['='] := rfl
  unfold group
  rw [hb.get, joined]
  split
  · exact substituted_append hequals (List.cons_ne_nil _ _)
  · rename_i hne
    obtain ⟨rs, r, hrs⟩ := (List.eq_nil_or_concat' _).resolve_left hne
    have hr : r ∈ records h (motorLines f.text) :=
      List.mem_of_mem_filter (hrs ▸ List.mem_append_right _ (List.mem_singleton_self r))
    rw [hrs, List.map_append, List.map_singleton, intercalate_concat, Option.getD_some,
      ← List.cons_append, ← List.append_assoc]
    exact substituted_append (substituted_id hr) (ne_nil_of_mem_records hr)

theorem decodeCfg_of_builtFrom (hb : BuiltFrom h f busMap) :
    decodeCfg (substituted (buildPi3hatCfg h (some f.text))) =
      concatM decodeGroups ((buses h busMap).map (group busMap)) := by
  have hprinted : buildPi3hatCfg h (some f.text) =
      echo ([';'].intercalate ((buses h busMap).map (group busMap))) := by
    unfold buildPi3hatCfg
    simp only [hb.loop, foldl_addGroup]
  have hgroups : ∀ g ∈ (buses h busMap).map (group busMap), g ≠ [] := by
    rw [List.forall_mem_map]
    exact fun bus _ => group_ne_nil busMap bus
  rw [hprinted, ← decodeCfg_intercalate hgroups]
  congr 1
  generalize buses h busMap = bs
  cases bs using List.reverseRecOn with
  | nil => rfl
  | append_singleton bs b =>
    have hlast : b ∈ bs ++ [b] := List.mem_append_right _ (List.mem_singleton_self b)
    have hequals : '=' ∈ [';'].intercalate ((bs ++ [b]).map (group busMap)) :=
      mem_intercalate_of_mem (List.mem_map_of_mem hlast) (by simp [group])
    rw [echo_of_mem hequals (by decide) (by decide), substituted_append_newline, List.map_append,
      List.map_singleton, intercalate_concat]
    exact substituted_append (substituted_group hb b) (group_ne_nil busMap b)

theorem decodeCfg_of_loop_none (hloop : (motorLines f.text).foldlM (addMotor h) ∅ = none) :
    decodeCfg (substituted (buildPi3hatCfg h (some f.text))) = some [] := by
  have hprinted : buildPi3hatCfg h (some f.text) = [] := by
    unfold buildPi3hatCfg
    simp only [hloop]
  rw [hprinted]
  rfl

/-! ## What it says -/

theorem nodup_pairs (f : MotorYaml) : (pairs f).Nodup := by
  have hids : ((pairs f).map Prod.fst).Nodup := by
    rw [pairs, List.map_map]
    exact f.ids_nodup
  exact List.Nodup.of_map _ hids

theorem concatM_groups (hb : BuiltFrom h f busMap)
    (hclean : ∀ bus ∈ buses h busMap, Clean h f bus) :
    concatM decodeGroups ((buses h busMap).map (group busMap)) =
      some ((buses h busMap).flatMap fun bus => (busEntries f bus).map pair) := by
  rw [concatM_map]
  exact concatM_of_eq_some fun bus hbus => decodeGroups_of_clean hb (hclean bus hbus)

theorem nodup_entries (f : MotorYaml) : f.entries.Nodup := List.Nodup.of_map _ f.ids_nodup

theorem flatMap_busEntries_perm (hb : BuiltFrom h f busMap) (hnodup : (buses h busMap).Nodup) :
    ((buses h busMap).flatMap fun bus => (busEntries f bus).map pair).Perm (pairs f) := by
  have hmem {bus : Text} {e : MotorEntry} :
      e ∈ busEntries f bus ↔ e ∈ f.entries ∧ e.bus.text = bus := by
    rw [busEntries, List.mem_filter, decide_eq_true_eq]
  have hgroups : ((buses h busMap).flatMap (busEntries f)).Nodup := by
    rw [List.nodup_flatMap]
    refine ⟨fun bus _ => (nodup_entries f).filter _,
      hnodup.imp fun {bus bus'} hne e he he' => ?_⟩
    exact hne ((hmem.mp he).2.symm.trans (hmem.mp he').2)
  rw [← List.map_flatMap, pairs]
  refine List.Perm.map pair ?_
  rw [List.perm_ext_iff_of_nodup hgroups (nodup_entries f)]
  intro e
  rw [List.mem_flatMap]
  constructor
  · rintro ⟨bus, -, he⟩
    exact (hmem.mp he).1
  · intro he
    exact ⟨_, mem_buses_of_mem_entries hb he, hmem.mpr ⟨he, rfl⟩⟩

/-! ## Comments -/

/-- The comment has got an id. -/
def HasId (h : Host) (filler : Filler) : Prop :=
  filler.LikeEntry ∧ (readMotor h filler.text).1 ≠ []

/-- A comment has got an id but no bus, which stops the function. -/
def Stopped (h : Host) (f : MotorYaml) : Prop :=
  ∃ filler ∈ f.fillers, HasId h filler ∧ (readMotor h filler.text).2 = []

/-- What a comment has got for a bus is white space in quotes, which makes no word. -/
def NoCommentBus (h : Host) (f : MotorYaml) : Prop :=
  ∀ filler ∈ f.fillers, HasId h filler →
    (readMotor h filler.text).2 ≠ [] ∧ fields (readMotor h filler.text).2 = []

/-- The pairs of the comments. -/
theorem exists_filler_of_hash {r : Text × Text} (hr : r ∈ records h (motorLines f.text))
    (hhash : '#' ∈ r.1) : ∃ filler ∈ f.fillers, HasId h filler ∧ r = readMotor h filler.text := by
  rcases mem_records_text_iff.mp hr with ⟨e, -, rfl⟩ | ⟨filler, hfiller, hmem⟩
  · exact absurd hhash (e.id.notMem (by decide))
  · obtain ⟨hlike, hkept, rfl, -⟩ := mem_fillerRecords hmem
    exact ⟨filler, hfiller, ⟨hlike, fun hnil => hkept (.inl hnil)⟩, rfl⟩

theorem mem_records_filler {filler : Filler} (hfiller : filler ∈ f.fillers)
    (hid : HasId h filler) :
    readMotor h filler.text ∈ records h (motorLines f.text) ∧
      '#' ∈ (readMotor h filler.text).1 := by
  obtain ⟨hlike, hne⟩ := hid
  have hhash : '#' ∈ (readMotor h filler.text).1 := by
    cases filler with
    | blank b => exact absurd hlike id
    | comment indent c =>
      exact (readMotor_comment indent.white hlike.1 hlike.2).resolve_left hne
  have hkept : ¬ Skipped (readMotor h filler.text).1 := by
    rintro (hnil | hkey)
    · exact hne hnil
    · rw [hkey] at hhash
      exact absurd hhash (by decide)
  refine ⟨mem_records_text_iff.mpr (.inr ⟨filler, hfiller, ?_⟩), hhash⟩
  rw [fillerRecords, if_pos ⟨hlike, hkept⟩]
  exact List.mem_singleton_self _

theorem decodeCfg_of_stopped (hstopped : Stopped h f) :
    decodeCfg (substituted (buildPi3hatCfg h (some f.text))) = some [] := by
  obtain ⟨filler, hfiller, hid, hnil⟩ := hstopped
  rcases exists_builtFrom h f with ⟨hloop, -⟩ | ⟨busMap, hb⟩
  · exact decodeCfg_of_loop_none hloop
  · exact absurd hnil (hb.bus_ne_nil _ (mem_records_filler hfiller hid).1)

section

variable (hcomments : NoCommentBus h f)

include hcomments

theorem bus_of_hash {r : Text × Text} (hr : r ∈ records h (motorLines f.text))
    (hhash : '#' ∈ r.1) : r.2 ≠ [] ∧ fields r.2 = [] := by
  obtain ⟨filler, hfiller, hid, rfl⟩ := exists_filler_of_hash hr hhash
  exact hcomments filler hfiller hid

/-- Nothing stops the function. -/
theorem exists_builtFrom_of_noCommentBus : ∃ busMap, BuiltFrom h f busMap := by
  refine (exists_builtFrom h f).resolve_left ?_
  rintro ⟨-, r, hr, hnil⟩
  rcases mem_records_text_iff.mp hr with ⟨e, -, rfl⟩ | ⟨filler, -, hmem⟩
  · exact e.bus.text_ne_nil hnil
  · exact (bus_of_hash hcomments hr (mem_fillerRecords hmem).2.2.2).1 hnil

/-- A key makes no word if it is from a comment, and else itself. -/
theorem busWords_of_noCommentBus (hb : BuiltFrom h f busMap) {key : Text}
    (hkey : key ∈ busMap.keys) : busWords h key = [] ∨ busWords h key = [key] := by
  obtain ⟨r, hr, rfl⟩ := (mem_keys_iff hb).mp hkey
  rcases mem_records_text_iff.mp hr with ⟨e, -, rfl⟩ | ⟨filler, -, hmem⟩
  · exact .inr (busWords_numeral e.bus)
  · left
    rw [busWords_eq_nil_iff]
    exact (bus_of_hash hcomments hr (mem_fillerRecords hmem).2.2.2).2

theorem eq_of_mem_busWords (hb : BuiltFrom h f busMap) {key bus : Text} (hkey : key ∈ busMap.keys)
    (hbus : bus ∈ busWords h key) : bus = key := by
  rcases busWords_of_noCommentBus hcomments hb hkey with heq | heq
  · rw [heq] at hbus
    cases hbus
  · rw [heq] at hbus
    exact List.mem_singleton.mp hbus

theorem nodup_buses (hb : BuiltFrom h f busMap) : (buses h busMap).Nodup := by
  rw [buses_perm_keys.nodup_iff, List.nodup_flatMap]
  constructor
  · intro key hkey
    rcases busWords_of_noCommentBus hcomments hb hkey with heq | heq
    · rw [heq]
      exact List.nodup_nil
    · rw [heq]
      exact List.nodup_singleton key
  · refine Std.TreeMap.nodup_keys.imp_of_mem fun {key key'} hkey hkey' hne bus hbus hbus' => hne ?_
    rw [← eq_of_mem_busWords hcomments hb hkey hbus, eq_of_mem_busWords hcomments hb hkey' hbus']

theorem clean_of_noCommentBus (hb : BuiltFrom h f busMap) {bus : Text}
    (hbus : bus ∈ buses h busMap) : Clean h f bus := by
  rw [buses_perm_keys.mem_iff, List.mem_flatMap] at hbus
  obtain ⟨key, hkey, hbus⟩ := hbus
  obtain rfl := eq_of_mem_busWords hcomments hb hkey hbus
  have hnone : ∀ r ∈ records h (motorLines f.text), r.2 = bus → '#' ∉ r.1 := by
    rintro r hr rfl hhash
    rw [busWords_eq_nil_iff.mpr (bus_of_hash hcomments hr hhash).2] at hbus
    cases hbus
  -- The record that the key is from is none of a comment, so it is an entry.
  obtain ⟨r, hr, hr_bus⟩ := (mem_keys_iff hb).mp hkey
  rcases mem_records_text_iff.mp hr with ⟨e, he, rfl⟩ | ⟨filler, -, hmem⟩
  · exact ⟨⟨e, he, hr_bus⟩, hnone⟩
  · exact absurd (mem_fillerRecords hmem).2.2.2 (hnone r hr hr_bus)

/-- **Without such comments the string says what the entries say.** -/
theorem decodeCfg_of_noCommentBus :
    ∃ l, decodeCfg (substituted (buildPi3hatCfg h (some f.text))) = some l ∧ l.Perm (pairs f) := by
  obtain ⟨busMap, hb⟩ := exists_builtFrom_of_noCommentBus hcomments
  refine ⟨_, ?_, flatMap_busEntries_perm hb (nodup_buses hcomments hb)⟩
  rw [decodeCfg_of_builtFrom hb]
  exact concatM_groups hb fun bus hbus => clean_of_noCommentBus hcomments hb hbus

end

theorem key_unique (hnodup : (buses h busMap).Nodup) {key key' bus : Text}
    (hkey : key ∈ busMap.keys) (hkey' : key' ∈ busMap.keys) (hbus : bus ∈ busWords h key)
    (hbus' : bus ∈ busWords h key') : key = key' := by
  rw [buses_perm_keys.nodup_iff, List.nodup_flatMap] at hnodup
  have hsymm : Std.Symm (Function.onFun List.Disjoint (busWords h)) :=
    ⟨fun _ _ hdisjoint => List.disjoint_symm hdisjoint⟩
  by_contra hne
  exact hnodup.2.forall hkey hkey' hne hbus hbus'

/-- If the words of all keys are buses of entries, once each, then no comment has got one. -/
theorem noCommentBus_of_clean (hb : BuiltFrom h f busMap) (hnodup : (buses h busMap).Nodup)
    (hclean : ∀ bus ∈ buses h busMap, Clean h f bus) : NoCommentBus h f := by
  intro filler hfiller hid
  obtain ⟨hr, hhash⟩ := mem_records_filler hfiller hid
  refine ⟨hb.bus_ne_nil _ hr, ?_⟩
  by_contra hfields
  obtain ⟨bus, hbus⟩ := List.exists_mem_of_ne_nil _ (mt busWords_eq_nil_iff.mp hfields)
  have hkey : (readMotor h filler.text).2 ∈ busMap.keys := (mem_keys_iff hb).mpr ⟨_, hr, rfl⟩
  have hmem : bus ∈ buses h busMap :=
    buses_perm_keys.mem_iff.mpr (List.mem_flatMap.mpr ⟨_, hkey, hbus⟩)
  obtain ⟨⟨e, he, rfl⟩, hnone⟩ := hclean bus hmem
  -- The word is the bus of an entry, which is a key too; so it is the same key, with the comment
  -- among its records.
  have hentry : e.bus.text ∈ busWords h e.bus.text := by
    rw [busWords_numeral]
    exact List.mem_singleton_self _
  have heq := key_unique hnodup hkey (mem_keys_of_mem_entries hb he) hbus hentry
  exact hnone _ hr heq hhash

/-- A string without doubles says what the entries say, and then no comment has got a bus; or the
function was stopped. -/
theorem noCommentBus_of_decodeCfg {l : List (Int × Int)}
    (hread : decodeCfg (substituted (buildPi3hatCfg h (some f.text))) = some l) (hl : l.Nodup) :
    (l = [] ∧ Stopped h f) ∨ NoCommentBus h f ∧ l.Perm (pairs f) := by
  rcases exists_builtFrom h f with ⟨hloop, r, hr, hnil⟩ | ⟨busMap, hb⟩
  · left
    rw [decodeCfg_of_loop_none hloop] at hread
    refine ⟨(Option.some.inj hread).symm, ?_⟩
    rcases mem_records_text_iff.mp hr with ⟨e, -, rfl⟩ | ⟨filler, -, hmem⟩
    · exact absurd hnil e.bus.text_ne_nil
    · obtain ⟨filler, hfiller, hid, rfl⟩ :=
        exists_filler_of_hash hr (mem_fillerRecords hmem).2.2.2
      exact ⟨filler, hfiller, hid, hnil⟩
  · right
    rw [decodeCfg_of_builtFrom hb] at hread
    have hclean : ∀ bus ∈ buses h busMap, Clean h f bus := fun bus hbus =>
      clean_of_decodeGroups hb
        (isSome_of_mem (by rw [hread]; rfl) _ (List.mem_map_of_mem hbus))
    obtain rfl := Option.some.inj ((concatM_groups hb hclean).symm.trans hread)
    rw [List.nodup_flatMap] at hl
    -- A bus that came twice would come with its motors twice.
    have hnodup : (buses h busMap).Nodup := by
      refine hl.2.imp_of_mem fun {bus bus'} hbus _ hdisjoint heq => ?_
      obtain ⟨e, he⟩ := List.exists_mem_of_ne_nil _ (busEntries_ne_nil (hclean bus hbus))
      exact hdisjoint (List.mem_map_of_mem he) (heq ▸ List.mem_map_of_mem he)
    exact ⟨noCommentBus_of_clean hb hnodup hclean, flatMap_busEntries_perm hb hnodup⟩

end RobotFramework.Setup
