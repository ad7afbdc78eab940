import Mathlib.Data.List.Infix
import RobotFramework.Telemetry.MotorYaml

/-!
# `SETUP.sh`: the motors that are calibrated

`build_pi3hat_cfg` and `get_motor_ids`, which read `config/Motor.yaml` line by line. Both leave out
comments that begin a line, and neither those that are indented.
-/

namespace RobotFramework.Setup

open Cxx Shell Lines

/-! ## The functions -/

/-- `grep -v '^#' | grep ':'`, of one line -/
def isMotorLine (line : Text) : Bool := decide (line.head? ≠ some '#') && decide (':' ∈ line)

/-- `grep -v '^#' config/Motor.yaml | grep ':'` -/
def motorLines (text : Text) : List Text := (linesOf text).filter isMotorLine

/-- `motor_id=$(echo "$motor_id" | xargs)` -/
def motorId (h : Host) (field : Text) : Text := substituted (h.xargs (echo field))

/-- `bus_id=$(echo "$bus_id" | xargs | cut -d'#' -f1 | xargs)` -/
def busId (h : Host) (field : Text) : Text :=
  substituted (h.xargs (cut '#' (h.xargs (echo field))))

/-- The two variables of the loop, of one line. -/
def readMotor (h : Host) (line : Text) : Text × Text :=
  (motorId h (readTwo ':' line).1, busId h (readTwo ':' line).2)

/-- `bus_map` -/
abbrev BusMap := Std.TreeMap Text Text

/-- The body of the loop. An empty subscript is an error of `bash`, behind which nothing more of the
function is run. -/
def addMotor (h : Host) (busMap : BusMap) (line : Text) : Option BusMap :=
  let (motorId, busId) := readMotor h line
  if motorId = [] ∨ motorId = motorMapKey then some busMap
  else if busId = [] then none
  else
    some (busMap.insert busId
      (if busMap[busId]?.getD [] = [] then motorId
      else busMap[busId]?.getD [] ++ ',' :: motorId))

/-- `printf '%s\n' "${!bus_map[@]}"` -/
def printKeys (busMap : BusMap) : Text :=
  if busMap.keys = [] then ['\n'] else unlines busMap.keys

/-- The words that the second loop goes through. -/
def buses (h : Host) (busMap : BusMap) : List Text :=
  (fields (substituted (unlines (h.sortN (linesOf (printKeys busMap)))))).flatMap h.glob

def group (busMap : BusMap) (bus : Text) : Text := bus ++ '=' :: busMap[bus]?.getD []

def addGroup (busMap : BusMap) (cfgString bus : Text) : Text :=
  if cfgString = [] then group busMap bus else cfgString ++ ';' :: group busMap bus

/-- `build_pi3hat_cfg`: what it prints. -/
def buildPi3hatCfg (h : Host) : Option Text → Text
  | none => "✗ config/Motor.yaml not found\n".toList
  | some text =>
    match (motorLines text).foldlM (addMotor h) ∅ with
    | none => []
    | some busMap => echo ((buses h busMap).foldl (addGroup busMap) [])

/-- `grep -v 'motorMap'` behind these -/
def idLines (text : Text) : List Text :=
  (motorLines text).filter fun line => !decide (motorMapKey <:+: line)

/-- `awk '{print $1}' | tr -d ':'`, of one line -/
def column (line : Text) : Text := (firstField line).filter (· ≠ ':')

/-- `sed 's/,$//'` -/
def dropComma (t : Text) : Text := if t.getLast? = some ',' then t.dropLast else t

/-- `get_motor_ids`: what it prints. -/
def getMotorIds : Option Text → Text
  | none => ['\n']
  | some text =>
    dropComma ((unlines ((idLines text).map column)).map fun c => if c = '\n' then ',' else c)

/-! ## One line -/

variable {h : Host}

/-- The words of the lines are numbers, or the key of the map. -/
theorem motorId_word {w pre : Text} (hne : w ≠ []) (hw : ∀ c ∈ w, isPlain c = true)
    (hoption : isOption w = false) (hpre : ∀ c ∈ pre, Cxx.isSpace c = true)
    (hhead : (pre ++ w).head? ≠ some '-') : motorId h (pre ++ w) = w := by
  have hnewline : '\n' ∉ w := fun hmem => absurd (hw _ hmem) (by decide)
  have hxargs : h.xargs (pre ++ (w ++ '\n' :: [])) = w ++ ['\n'] :=
    Host.xargs_word hne hw hoption hpre rfl (List.forall_mem_nil _)
  rw [motorId, echo_of_head hhead, List.append_assoc, hxargs, substituted_line hnewline]

theorem motorId_entry {indent : Nat} (hindent : 0 < indent) (n : Numeral) :
    motorId h (List.replicate indent ' ' ++ n.text) = n.text := by
  refine motorId_word n.text_ne_nil n.isPlain n.isOption (fun c hc => ?_) ?_
  · rw [(List.mem_replicate.mp hc).2]
    rfl
  · obtain ⟨k, rfl⟩ := Nat.exists_eq_succ_of_ne_zero hindent.ne'
    simp [List.replicate_succ]

theorem motorId_header : motorId h motorMapKey = motorMapKey := by
  have hkey : motorId h ([] ++ motorMapKey) = motorMapKey :=
    motorId_word (by decide) (by decide) (by decide) (List.forall_mem_nil _) (by decide)
  exact hkey

/-- The text of a comment that is indented keeps its `#`, or is lost. -/
theorem motorId_comment {b : Text} (hb : White b) (hne : b ≠ []) (c : Text) :
    motorId h (b ++ '#' :: c) = [] ∨ '#' ∈ motorId h (b ++ '#' :: c) := by
  have hhead : (b ++ '#' :: c).head? ≠ some '-' := by
    obtain ⟨d, b, rfl⟩ := List.exists_cons_of_ne_nil hne
    rcases hb d List.mem_cons_self with rfl | rfl <;> simp
  rw [motorId, echo_of_head hhead, List.append_assoc]
  exact Host.xargs_begin rfl (by decide) hb.isSpace _

section

variable {gap : Text} (hgap : White gap) (hne : gap ≠ []) (n : Numeral)

include hgap hne in
theorem echo_gap (t : Text) : echo (gap ++ t) = gap ++ t ++ ['\n'] := by
  refine echo_of_head ?_
  obtain ⟨d, gap, rfl⟩ := List.exists_cons_of_ne_nil hne
  rcases hgap d List.mem_cons_self with rfl | rfl <;> simp

include hgap hne in
theorem busId_blanks {t : Text} (ht : White t) :
    busId h (gap ++ (n.text ++ t)) = n.text := by
  -- Behind the number there is white space, if only the newline of `echo`.
  have hend : ∃ d post, t ++ ['\n'] = d :: post ∧ isIfs d = true ∧
      ∀ c ∈ post, Cxx.isSpace c = true := by
    cases t with
    | nil => exact ⟨'\n', [], rfl, rfl, List.forall_mem_nil _⟩
    | cons d t =>
      refine ⟨d, t ++ ['\n'], rfl, ht.isIfs d List.mem_cons_self, ?_⟩
      rw [List.forall_mem_append]
      exact ⟨fun c hc => ht.isSpace c (List.mem_cons_of_mem _ hc), by decide⟩
  obtain ⟨d, post, heq, hd, hpost⟩ := hend
  rw [busId, echo_gap hgap hne, List.append_assoc, List.append_assoc, heq,
    Host.xargs_cut_xargs_word n.text_ne_nil n.isPlain n.isOption (n.notMem (by decide))
      hgap.isSpace hd hpost, substituted_line (n.notMem (by decide))]

include hgap hne in
theorem busId_comment {b c : Text} (hb : White b) (hb_ne : b ≠ []) (hc : '\n' ∉ c) :
    busId h (gap ++ (n.text ++ (b ++ '#' :: c))) = n.text := by
  obtain ⟨d, b, rfl⟩ := List.exists_cons_of_ne_nil hb_ne
  have hline : gap ++ (n.text ++ (d :: b ++ '#' :: c)) ++ ['\n'] =
      gap ++ (n.text ++ d :: (b ++ '#' :: (c ++ ['\n']))) := by simp
  rw [busId, echo_gap hgap hne, hline,
    Host.xargs_cut_xargs n.text_ne_nil n.isPlain n.isOption rfl (n.notMem (by decide)) hgap.isSpace
      (hb.isIfs d List.mem_cons_self) (fun c hc => hb.isSpace c (List.mem_cons_of_mem _ hc)) hc,
    substituted_line (n.notMem (by decide))]

end

/-- **An entry is read as it is**, whatever its comment says. -/
theorem readMotor_entry {indent : Nat} (hindent : 0 < indent) (e : MotorEntry) :
    readMotor h (e.text indent) = (e.id.text, e.bus.text) := by
  have hcolon (n : Numeral) : ':' ∉ n.text := n.notMem (by decide)
  have hcolon' : ∀ {t : Text}, White t → ':' ∉ t := fun ht hmem => by
    rcases ht _ hmem with heq | heq <;> cases heq
  have hpre : ':' ∉ List.replicate indent ' ' ++ e.id.text := by
    simp [hcolon]
  have hid := motorId_entry (h := h) hindent e.id
  rw [readMotor, MotorEntry.text, ← List.append_assoc, readTwo_append hpre, hid]
  congr 1
  unfold LineEnd.text
  -- `read` drops a colon at the end, so a comment that ends with one comes without it.
  cases hcomment : e.lineEnd.comment with
  | none =>
    have hrest : ':' ∉ e.gap.text ++ (e.bus.text ++ (e.lineEnd.blanks.text ++ [])) := by
      simp [hcolon, hcolon' e.gap.white, hcolon' e.lineEnd.blanks.white]
    rw [if_neg fun hlast => hrest (List.mem_of_getLast? hlast.1), List.append_nil]
    exact busId_blanks e.gap.white e.gap_ne_nil e.bus e.lineEnd.blanks.white
  | some c =>
    have hblanks := e.lineEnd.separated (by rw [hcomment]; rfl)
    have hbus {t : Text} (ht : '\n' ∉ t) : busId h (e.gap.text ++
        (e.bus.text ++ (e.lineEnd.blanks.text ++ '#' :: t))) = e.bus.text :=
      busId_comment e.gap.white e.gap_ne_nil e.bus e.lineEnd.blanks.white hblanks ht
    dsimp only
    split
    · -- The colon at the end of the comment is gone.
      rename_i hlast
      have hne : c.text ≠ [] := by
        intro hnil
        simp [hnil] at hlast
      have hdrop : (e.gap.text ++ (e.bus.text ++
          (e.lineEnd.blanks.text ++ '#' :: c.text))).dropLast =
            e.gap.text ++ (e.bus.text ++ (e.lineEnd.blanks.text ++ '#' :: c.text.dropLast)) := by
        simp [List.dropLast_append_of_ne_nil, List.dropLast_cons_of_ne_nil hne]
      rw [hdrop]
      exact hbus fun hmem => c.newline_notMem (List.dropLast_subset _ hmem)
    · exact hbus c.newline_notMem

theorem readMotor_header (f : MotorYaml) : (readMotor h f.header).1 = motorMapKey := by
  have hcolon : ':' ∉ motorMapKey := by decide
  rw [readMotor, MotorYaml.header, readTwo_append hcolon]
  exact motorId_header

theorem readMotor_comment {b : Text} (hb : White b) (hne : b ≠ []) {c : Text} (hc : ':' ∈ c) :
    (readMotor h (b ++ '#' :: c)).1 = [] ∨ '#' ∈ (readMotor h (b ++ '#' :: c)).1 := by
  obtain ⟨u, v, rfl, hu⟩ := List.eq_append_cons_of_mem hc
  have hcolon : ':' ∉ b ++ '#' :: u := by
    have hb' : ':' ∉ b := fun hmem => by
      rcases hb _ hmem with heq | heq <;> cases heq
    simp [hb', hu]
  have hline : b ++ '#' :: (u ++ ':' :: v) = (b ++ '#' :: u) ++ ':' :: v := by simp
  rw [readMotor, hline, readTwo_append hcolon]
  exact motorId_comment hb hne u

/-! ## Which lines are read -/

theorem isMotorLine_iff {line : Text} :
    isMotorLine line = true ↔ line.head? ≠ some '#' ∧ ':' ∈ line := by
  simp [isMotorLine]

theorem White.colon_notMem {t : Text} (ht : White t) : ':' ∉ t := by
  intro hmem
  rcases ht _ hmem with heq | heq <;> cases heq

/-- Of the lines without content, the indented comments with a colon. -/
theorem isMotorLine_filler (f : Filler) : isMotorLine f.text = true ↔ f.LikeEntry := by
  rw [isMotorLine_iff]
  cases f with
  | blank b =>
    refine iff_of_false (fun hline => ?_) id
    exact White.colon_notMem b.white hline.2
  | comment indent c =>
    have hcolon : ':' ∈ indent.text ++ '#' :: c.text ↔ ':' ∈ c.text := by
      simp [White.colon_notMem indent.white]
    show (indent.text ++ '#' :: c.text).head? ≠ some '#' ∧ _ ↔ indent.text ≠ [] ∧ ':' ∈ c.text
    refine and_congr ?_ hcolon
    cases hindent : indent.text with
    | nil => simp
    | cons d t =>
      rcases indent.white d (hindent ▸ List.mem_cons_self) with rfl | rfl <;> simp

theorem isMotorLine_entry {indent : Nat} (hindent : 0 < indent) (e : MotorEntry) :
    isMotorLine (e.text indent) = true := by
  obtain ⟨n, rfl⟩ := Nat.exists_eq_succ_of_ne_zero hindent.ne'
  rw [isMotorLine_iff]
  simp [MotorEntry.text, List.replicate_succ]

theorem isMotorLine_header (f : MotorYaml) : isMotorLine f.header = true := by
  have hhead : motorMapKey.head? = some 'm' := rfl
  rw [isMotorLine_iff, MotorYaml.header, List.head?_append, hhead]
  simp

/-- The lines of the file that are read. -/
theorem motorLines_text (f : MotorYaml) :
    motorLines f.text = (f.before.map Filler.text).filter isMotorLine ++
      f.header :: (f.body.map (MotorLine.text f.indent)).filter isMotorLine := by
  rw [motorLines, f.filter_linesOf_text rfl, MotorYaml.lines, List.filter_append,
    List.filter_cons_of_pos (isMotorLine_header f)]

end RobotFramework.Setup
