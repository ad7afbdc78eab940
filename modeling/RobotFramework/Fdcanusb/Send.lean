import RobotFramework.Fdcanusb.Reports

/-!
# `mjbots/moteus/moteus_transport.h`: frames to an fdcanusb

`can send`, the number of the frame, its data, filled up to a length that CAN-FD has, and its flags.
These are the words that a report has behind `rcv` (`sendCanFdFrame_eq`), and they are read as what
they were written from: **a frame that the adapter reports in the words in which it was sent comes
in as it went out** (`sent_received`).
-/

namespace Fdcanusb

/-- `TimeoutTransport::RoundUpDlc` -/
def roundUpDlc (size : Nat) : Nat :=
  if size ≤ 8 then size
  else if size ≤ 12 then 12
  else if size ≤ 16 then 16
  else if size ≤ 20 then 20
  else if size ≤ 24 then 24
  else if size ≤ 32 then 32
  else if size ≤ 48 then 48
  else if size ≤ 64 then 64
  else size

/-- `%04x`, of a number with no more than eight digits. -/
def hex04 (n : Nat) : Bytes :=
  ((Hex.fixed 0x61 8 n).take 4).dropWhile (· = 0x30) ++ (Hex.fixed 0x61 8 n).drop 4

def hexBytes (data : List UInt8) : Bytes := data.flatMap fun b => Hex.fixed 0x61 2 b.toNat

/-- `CHILD_SendCanFdFrame`: the line that is put into the transmit buffer. -/
def sendCanFdFrame (disableBrs checksumActive : Bool) (frame : Frame) : Bytes :=
  let text := ascii "can send " ++ hex04 frame.arbitrationId.toNat ++ ascii " "
  let dlc := roundUpDlc frame.data.length
  let text := text ++ hexBytes frame.data
  let text := text ++ (List.replicate (dlc - frame.data.length) (ascii "50")).flatten
  let text :=
    if disableBrs ∨ frame.brs = .kForceOff then text ++ ascii " b"
    else if frame.brs = .kForceOn then text ++ ascii " B"
    else text
  let text :=
    if frame.fdcanFrame = .kForceOff then text ++ ascii " f"
    else if frame.fdcanFrame = .kForceOn then text ++ ascii " F"
    else text
  let text :=
    if checksumActive then
      let text := text ++ ascii " "
      text ++ ascii "*" ++ checkDigits (computeCrc8 text)
    else text
  text ++ ascii "\n"

/-! ## What goes out -/

/-- The data that goes over the bus. -/
def padded (data : List UInt8) : List UInt8 :=
  data ++ List.replicate (roundUpDlc data.length - data.length) 0x50

/-- The frame that goes over the bus. -/
def Frame.sent (disableBrs : Bool) (frame : Frame) : Frame :=
  { frame with
    data := padded frame.data
    brs := if disableBrs then .kForceOff else frame.brs }

theorem roundUpDlc_bounds {size : Nat} (h : size ≤ 64) :
    size ≤ roundUpDlc size ∧ roundUpDlc size ≤ 64 := by
  unfold roundUpDlc
  split_ifs <;> omega

theorem length_padded {data : List UInt8} (h : data.length ≤ 64) :
    (padded data).length = roundUpDlc data.length := by
  have hbounds := roundUpDlc_bounds h
  rw [padded, List.length_append, List.length_replicate]
  omega

theorem length_hexBytes (data : List UInt8) : (hexBytes data).length = 2 * data.length := by
  induction data with
  | nil => rfl
  | cons b data ih =>
    rw [hexBytes, List.flatMap_cons, List.length_append, Hex.length_fixed, ← hexBytes, ih,
      List.length_cons]
    omega

/-- Every byte is read as it was written. -/
theorem parsePairs_hexBytes (data : List UInt8) : parsePairs (hexBytes data) = data := by
  induction data with
  | nil => rfl
  | cons b data ih =>
    have hb := b.toNat_lt
    have hhi : Hex.value? (Hex.digit 0x61 (b.toNat / 16)) = some (b.toNat / 16) :=
      Hex.value?_digit (.inl rfl) (by omega)
    have hlo : Hex.value? (Hex.digit 0x61 (b.toNat % 16)) = some (b.toNat % 16) :=
      Hex.value?_digit (.inl rfl) (Nat.mod_lt _ (by decide))
    have hsum : b.toNat / 16 * 16 + b.toNat % 16 = b.toNat := Nat.div_add_mod' _ _
    rw [hexBytes, List.flatMap_cons, Hex.fixed_two, ← hexBytes]
    simp only [List.cons_append, List.nil_append]
    rw [parsePairs, ih, parseHexByte, hhi, hlo]
    simp only [hsum, UInt8.ofNat_toNat]

theorem value_hex04 {n : Nat} (h : n < 16 ^ 8) : Hex.value (hex04 n) = n := by
  rw [hex04, Hex.value_dropWhile, List.take_append_drop, Hex.value_fixed_of_lt (.inl rfl) h]

theorem isDigit_of_mem_hex04 {n : Nat} {c : UInt8} (hc : c ∈ hex04 n) : Hex.isDigit c = true := by
  apply Hex.isDigit_of_mem_fixed (.inl rfl)
  rcases List.mem_append.mp hc with hc | hc
  · exact List.mem_of_mem_take ((List.dropWhile_sublist _).subset hc)
  · exact List.mem_of_mem_drop hc

theorem length_hex04 (n : Nat) : 4 ≤ (hex04 n).length ∧ (hex04 n).length ≤ 8 := by
  have hdrop := (List.dropWhile_sublist (l := (Hex.fixed 0x61 8 n).take 4)
    (fun c => decide (c = 0x30))).length_le
  rw [List.length_take, Hex.length_fixed] at hdrop
  rw [hex04, List.length_append, List.length_drop, Hex.length_fixed]
  omega

/-- The words in which a frame is sent. -/
def Report.ofFrame (disableBrs : Bool) (frame : Frame)
    (h : frame.data ≠ [] ∧ frame.data.length ≤ 64) : Report where
  address := hex04 frame.arbitrationId.toNat
  digits := hexBytes (padded frame.data)
  brs := if disableBrs then .kForceOff else frame.brs
  fdcanFrame := frame.fdcanFrame
  address_hex := by
    have hlength := length_hex04 frame.arbitrationId.toNat
    refine ⟨?_, hlength.2, fun c hc => isDigit_of_mem_hex04 hc⟩
    apply List.ne_nil_of_length_pos
    omega
  digits_hex := by
    have hbounds := roundUpDlc_bounds h.2
    have hpos : 0 < frame.data.length := List.length_pos_of_ne_nil h.1
    have hlength : (hexBytes (padded frame.data)).length = 2 * roundUpDlc frame.data.length := by
      rw [length_hexBytes, length_padded h.2]
    refine ⟨?_, ?_, ?_⟩
    · apply List.ne_nil_of_length_pos
      omega
    · omega
    · intro c hc
      obtain ⟨b, -, hc⟩ := List.mem_flatMap.mp hc
      exact Hex.isDigit_of_mem_fixed (.inl rfl) hc

/-- They say what goes over the bus. -/
theorem Report.frame_ofFrame {disableBrs : Bool} {frame : Frame}
    (h : frame.data ≠ [] ∧ frame.data.length ≤ 64) :
    (Report.ofFrame disableBrs frame h).frame = frame.sent disableBrs := by
  have hid : Hex.value (hex04 frame.arbitrationId.toNat) = frame.arbitrationId.toNat :=
    value_hex04 frame.arbitrationId.isLt
  rw [Report.frame, Report.ofFrame, Frame.sent]
  simp only [hid, parsePairs_hexBytes, BitVec.ofNat_toNat, BitVec.setWidth_eq]

theorem hexBytes_padded (data : List UInt8) :
    hexBytes (padded data) = hexBytes data ++
      (List.replicate (roundUpDlc data.length - data.length) (ascii "50")).flatten := by
  have hfill : Hex.fixed 0x61 2 (0x50 : UInt8).toNat = ascii "50" := by decide
  rw [padded, hexBytes, List.flatMap_append, ← hexBytes]
  congr 1
  rw [List.flatMap, List.map_replicate, hfill]

theorem brs_eq (disableBrs : Bool) (brs : Toggle) (text : Bytes) :
    (if disableBrs ∨ brs = .kForceOff then text ++ ascii " b"
      else if brs = .kForceOn then text ++ ascii " B"
      else text) =
      text ++ ((if disableBrs then .kForceOff else brs : Toggle).words 0x62 0x42).flatMap
        (space :: ·) := by
  cases disableBrs with
  | true => rfl
  | false =>
    cases brs with
    | kDefault => exact (List.append_nil text).symm
    | kForceOff => rfl
    | kForceOn => rfl

theorem fdcanFrame_eq (fdcanFrame : Toggle) (text : Bytes) :
    (if fdcanFrame = .kForceOff then text ++ ascii " f"
      else if fdcanFrame = .kForceOn then text ++ ascii " F"
      else text) = text ++ (fdcanFrame.words 0x66 0x46).flatMap (space :: ·) := by
  cases fdcanFrame with
  | kDefault => exact (List.append_nil text).symm
  | kForceOff => rfl
  | kForceOn => rfl

/-- **A frame is sent in the words of a report.** -/
theorem sendCanFdFrame_eq {disableBrs checksumActive : Bool} {frame : Frame}
    (h : frame.data ≠ [] ∧ frame.data.length ≤ 64) :
    sendCanFdFrame disableBrs checksumActive frame =
      lineText checksumActive (ascii "can send" ++ (Report.ofFrame disableBrs frame h).fields) ++
        ascii "\n" := by
  have hkeyword : ascii "can send " = ascii "can send" ++ [space] := by decide
  have hblank : ascii " " = [space] := by decide
  have hstar : ascii "*" = [star] := by decide
  have hfields : ascii "can send" ++ (Report.ofFrame disableBrs frame h).fields =
      ascii "can send " ++ hex04 frame.arbitrationId.toNat ++ ascii " " ++ hexBytes frame.data ++
        (List.replicate (roundUpDlc frame.data.length - frame.data.length) (ascii "50")).flatten ++
        ((if disableBrs then .kForceOff else frame.brs : Toggle).words 0x62 0x42).flatMap
          (space :: ·) ++
        (frame.fdcanFrame.words 0x66 0x46).flatMap (space :: ·) := by
    rw [Report.fields, Report.words, Report.ofFrame, Report.flags, hkeyword, hblank]
    simp only [List.flatMap_cons, List.flatMap_append, hexBytes_padded, List.append_assoc,
      List.cons_append, List.nil_append]
  rw [sendCanFdFrame, lineText, hfields]
  simp only [brs_eq, fdcanFrame_eq]
  split
  · rw [hblank, hstar]
    simp only [List.append_assoc, List.cons_append, List.nil_append]
  · rfl

/-! ## What comes back -/

/-- The words of a report leave no choice of the frame. -/
theorem Report.frame_congr {r r' : Report} (h : r.fields = r'.fields) : r.frame = r'.frame := by
  have hbody : (Item.rcv r).body = (Item.rcv r').body := congrArg (ascii "rcv" ++ ·) h
  have hline := @Item.processLine_lineText (.rcv r) false false id
  rw [hbody, (Item.rcv r').processLine_lineText id] at hline
  exact (Event.frame.inj (Option.some.inj (Prod.mk.inj (Option.some.inj hline)).2)).symm

/-- The report has the words in which the frame was sent. -/
def Report.Echoes (disableBrs checksumActive : Bool) (frame : Frame) (r : Report) : Prop :=
  sendCanFdFrame disableBrs checksumActive frame =
    lineText checksumActive (ascii "can send" ++ r.fields) ++ ascii "\n"

theorem lineText_injective {checksums : Bool} {body body' : Bytes}
    (h : lineText checksums body = lineText checksums body') : body = body' := by
  cases checksums with
  | false => exact h
  | true =>
    rw [lineText, if_pos rfl, lineText, if_pos rfl] at h
    have hlength : (body ++ [space]).length = (body' ++ [space]).length := by
      have hall := congrArg List.length h
      simp only [checkDigits, List.length_append, List.length_cons, Hex.length_fixed] at hall
      simpa using hall
    exact List.append_cancel_right (List.append_inj h hlength).1

theorem Report.Echoes.frame_eq {disableBrs checksumActive : Bool} {frame : Frame} {r : Report}
    (hecho : r.Echoes disableBrs checksumActive frame)
    (h : frame.data ≠ [] ∧ frame.data.length ≤ 64) : r.frame = frame.sent disableBrs := by
  rw [Echoes, sendCanFdFrame_eq h] at hecho
  have hfields := List.append_cancel_left (lineText_injective (List.append_cancel_right hecho))
  rw [← Report.frame_congr hfields, Report.frame_ofFrame h]

/-- An adapter that has sent the frames, and reports each as one that came in. -/
def echo (reports : List Report) : List Item := reports.flatMap fun r => [.ok, .rcv r]

/-- **A frame comes back as it went out**, its data filled up, for every frame with data, whatever
the flags, with checksums or without, and however the reports are spread over the reads. -/
theorem sent_received {disableBrs checksums checksumActive : Bool}
    (hactive : checksumActive = true → checksums = true) {frames : List Frame}
    (hframes : ∀ frame ∈ frames, frame.data ≠ [] ∧ frame.data.length ≤ 64)
    {reports : List Report}
    (hechoes : List.Forall₂ (fun frame r => r.Echoes disableBrs checksumActive frame)
      frames reports)
    {lines : List Line} (hlines : lines.map (·.item) = echo reports) {es : List PortEvent}
    (harrived : arrivals es = stream checksums lines)
    (hread : (port.after (.opened checksumActive) es).fifo = []) :
    port.trace (.opened checksumActive) es =
      frames.flatMap fun frame => [.ok, .frame (frame.sent disableBrs)] := by
  have hpre : arrivals es <+: stream checksums lines := by
    rw [harrived]
  have hreceived := (reports_received hactive lines hpre).2 harrived hread
  have hevents : lines.map (·.item.event) = (echo reports).map Item.event := by
    rw [← hlines, List.map_map]
    rfl
  rw [hreceived, hevents]
  clear hlines harrived hread hreceived hevents
  induction hechoes with
  | nil => rfl
  | @cons frame r frames reports hecho _ ih =>
    have hframe := hecho.frame_eq (hframes frame List.mem_cons_self)
    have htail := ih fun frame' hframe' => hframes frame' (List.mem_cons_of_mem _ hframe')
    rw [echo, List.flatMap_cons, List.map_append, ← echo, htail, List.flatMap_cons, ← hframe]
    rfl

/-- A frame of three bytes. -/
def shortFrame : Frame := { arbitrationId := 0x8001, data := [0x01, 0x00, 0x0a], brs := .kForceOn }

theorem shortFrame_data : shortFrame.data ≠ [] ∧ shortFrame.data.length ≤ 64 := by decide

def shortReport : Report := .ofFrame false shortFrame shortFrame_data

/-- A report on a line that ends like those of the adapter. -/
def Item.crlf (item : Item) : Line where
  item
  ends := [0x0d, 0x0a]
  ends_ok :=
    ⟨List.cons_ne_nil _ _, List.forall_mem_cons.mpr ⟨rfl, List.forall_mem_singleton.mpr rfl⟩⟩

/-- Its echo, with checksums. -/
def shortLines : List Line := (echo [shortReport]).map Item.crlf

/-- The echo is read in pieces. -/
def shortRun : List PortEvent :=
  [.arrive (ascii "OK *BD\r\nrcv 8"), .read 64, .arrive (ascii "001 01000a B *"), .read 8, .read 64,
    .arrive (ascii "15\r\n"), .read 64]

theorem sent_received_short :
    port.trace (.opened true) shortRun = [.ok, .frame shortFrame] := by
  have hframes : ∀ frame ∈ [shortFrame], frame.data ≠ [] ∧ frame.data.length ≤ 64 :=
    List.forall_mem_singleton.mpr shortFrame_data
  have hechoes : List.Forall₂ (fun frame r => r.Echoes false true frame) [shortFrame]
      [shortReport] := .cons (sendCanFdFrame_eq shortFrame_data) .nil
  have hlines : shortLines.map (·.item) = echo [shortReport] := rfl
  exact sent_received id hframes hechoes hlines (by decide +kernel) (by decide +kernel)

end Fdcanusb
