import RobotFramework.Fdcanusb.Lines

/-!
# `mjbots/moteus/moteus_transport.h`: frames over an fdcanusb

The adapter says `rcv` of a frame that came in, with its number, its data and its flags, and `OK` of
a command that it carried out. Its lines may have a checksum behind them.

**Every report comes in as one frame, in order**, however its line is spread over the reads, with a
checksum or without (`reports_received`). What that rests on is that a run of reads comes to the
same as one look at the lines of all that has been read (`port_lines`), as long as no line fills the
buffer.
-/

namespace Fdcanusb

open Reactive

/-! ## The serial port -/

/-- The reader, which is gone where the process has ended, and what the port holds for it. -/
structure Port where
  reader : Option Reader
  fifo : Bytes

/-- Bytes come in; `read` is called and returns up to so many. -/
inductive PortEvent where
  | arrive (bytes : Bytes)
  | read (size : Nat)

/-- `read` is asked for what the line buffer has room for. -/
def port : Machine Port PortEvent Event
  | s, .arrive bytes => ({ s with fifo := s.fifo ++ bytes }, [])
  | s, .read size =>
    match s.reader with
    | none => (s, [])
    | some reader =>
      let size := min size (lineBufferSize - reader.lineBuffer.length)
      match consumeData reader (s.fifo.take size) with
      | none => ({ reader := none, fifo := s.fifo.drop size }, [])
      | some (reader, events) => ({ reader := some reader, fifo := s.fifo.drop size }, events)

def Port.opened (checksumActive : Bool) : Port :=
  { reader := some { checksumActive, lineBuffer := [] }, fifo := [] }

def PortEvent.arriving : PortEvent → Bytes
  | .arrive bytes => bytes
  | .read _ => []

/-- All that has come in. -/
def arrivals (es : List PortEvent) : Bytes := es.flatMap PortEvent.arriving

theorem arrivals_snoc (es : List PortEvent) (e : PortEvent) :
    arrivals (es ++ [e]) = arrivals es ++ e.arriving := by
  simp [arrivals]

/-- No line fills the buffer, and none ends the process. -/
structure Readable (checksumActive : Bool) (bytes : Bytes) : Prop where
  short : ∀ pre, pre <+: bytes → (Lines.complete isLineEnd pre).2.length < lineBufferSize
  processed : (processLines checksumActive (Lines.complete isLineEnd bytes).1).isSome

theorem processLines_isSome_left {checksumActive : Bool} {lines lines' : List Bytes}
    (h : (processLines checksumActive (lines ++ lines')).isSome) :
    (processLines checksumActive lines).isSome := by
  rw [processLines_append] at h
  cases hlines : processLines checksumActive lines with
  | none => simp [hlines] at h
  | some result => rfl

theorem Readable.initial {checksumActive : Bool} {bytes pre : Bytes}
    (h : Readable checksumActive bytes) (hpre : pre <+: bytes) : Readable checksumActive pre where
  short pre' hpre' := h.short pre' (hpre'.trans hpre)
  processed := by
    obtain ⟨post, rfl⟩ := hpre
    have hprocessed := h.processed
    rw [Lines.complete_append] at hprocessed
    exact processLines_isSome_left hprocessed

/-- What a reader makes of bytes, when lines have been read before. -/
theorem consumeData_eq {checksumActive active : Bool} {done bytes : Bytes} {events : List Event}
    (hdone : processLines checksumActive (Lines.complete isLineEnd done).1 = some (active, events))
    (h : Readable checksumActive (done ++ bytes)) :
    ∃ active' events', consumeData
        { checksumActive := active, lineBuffer := (Lines.complete isLineEnd done).2 } bytes =
          some ({ checksumActive := active',
                  lineBuffer := (Lines.complete isLineEnd (done ++ bytes)).2 }, events') ∧
      processLines checksumActive (Lines.complete isLineEnd (done ++ bytes)).1 =
        some (active', events ++ events') := by
  have hshort := h.short _ (List.prefix_refl _)
  have hprocessed := h.processed
  rw [Lines.complete_append] at hshort hprocessed ⊢
  rw [processLines_append, hdone] at hprocessed ⊢
  obtain ⟨⟨active', events'⟩, hmore⟩ : ∃ result, processLines active
      (Lines.complete isLineEnd ((Lines.complete isLineEnd done).2 ++ bytes)).1 = some result := by
    apply Option.isSome_iff_exists.mp
    simpa using hprocessed
  refine ⟨active', events', ?_, ?_⟩
  · rw [consumeData, consumeLines_eq, hmore]
    simp only [Option.map_some]
    rw [if_neg (Nat.not_le.mpr hshort)]
  · simp [hmore]

/-- **The reads of a run come to the lines of what has been read**, and to what stands behind them
in the buffer. -/
theorem port_lines {checksumActive : Bool} (es : List PortEvent)
    (h : Readable checksumActive (arrivals es)) :
    ∃ done active events, arrivals es = done ++ (port.after (.opened checksumActive) es).fifo ∧
      processLines checksumActive (Lines.complete isLineEnd done).1 = some (active, events) ∧
      (port.after (.opened checksumActive) es).reader = some
        { checksumActive := active, lineBuffer := (Lines.complete isLineEnd done).2 } ∧
      port.trace (.opened checksumActive) es = events := by
  induction es using List.reverseRecOn with
  | nil => exact ⟨[], checksumActive, [], rfl, rfl, rfl, rfl⟩
  | append_singleton es e ih =>
    rw [arrivals_snoc] at h ⊢
    obtain ⟨done, active, events, hsplit, hdone, hreader, htrace⟩ :=
      ih (h.initial (List.prefix_append _ _))
    rw [Machine.after_snoc, Machine.trace_snoc, htrace]
    generalize port.after (.opened checksumActive) es = s at hsplit hreader
    cases e with
    | arrive bytes =>
      refine ⟨done, active, events, ?_, hdone, hreader, ?_⟩
      · rw [hsplit, List.append_assoc]
        rfl
      · exact List.append_nil _
    | read size =>
      rw [PortEvent.arriving, List.append_nil] at h ⊢
      rw [port, hreader]
      simp only
      generalize min size _ = count
      have hpre : done ++ s.fifo.take count <+: arrivals es := by
        rw [hsplit]
        apply (List.prefix_append_right_inj done).mpr
        exact List.take_prefix count s.fifo
      obtain ⟨active', events', hconsume, hlines⟩ := consumeData_eq hdone (h.initial hpre)
      rw [hconsume]
      refine ⟨done ++ s.fifo.take count, active', events ++ events', ?_, hlines, rfl, rfl⟩
      rw [hsplit, List.append_assoc, List.take_append_drop]

/-! ## Reports -/

/-- A flag, if one is set. -/
def Toggle.words (off on : UInt8) : Toggle → List Bytes
  | .kDefault => []
  | .kForceOff => [[off]]
  | .kForceOn => [[on]]

/-- What is said of a frame, in words: digits of its number and of its data, and its flags. -/
structure Report where
  address : Bytes
  digits : Bytes
  brs : Toggle := .kDefault
  fdcanFrame : Toggle := .kDefault
  address_hex : address ≠ [] ∧ address.length ≤ 8 ∧ ∀ c ∈ address, Hex.isDigit c = true
  digits_hex : digits ≠ [] ∧ digits.length ≤ 128 ∧ ∀ c ∈ digits, Hex.isDigit c = true

namespace Report

def flags (r : Report) : List Bytes := r.brs.words 0x62 0x42 ++ r.fdcanFrame.words 0x66 0x46

def words (r : Report) : List Bytes := r.address :: r.digits :: r.flags

/-- A blank in front of every word. -/
def fields (r : Report) : Bytes := r.words.flatMap (space :: ·)

/-- The frame that is meant. -/
def frame (r : Report) : Frame where
  arbitrationId := BitVec.ofNat 32 (Hex.value r.address)
  data := parsePairs r.digits
  brs := r.brs
  fdcanFrame := r.fdcanFrame

end Report

/-- The adapter has sent a frame, or says which one came in. -/
inductive Item where
  | ok
  | rcv (report : Report)

namespace Item

def first : Item → Bytes
  | .ok => ascii "OK"
  | .rcv _ => ascii "rcv"

def words : Item → List Bytes
  | .ok => []
  | .rcv report => report.words

def body (item : Item) : Bytes := item.first ++ item.words.flatMap (space :: ·)

def event : Item → Event
  | .ok => .ok
  | .rcv report => .frame report.frame

end Item

/-- The digits of a checksum. -/
def checkDigits (crc : UInt8) : Bytes := Hex.fixed 0x41 2 crc.toNat

/-- A line, with its checksum or without. -/
def lineText (checksums : Bool) (body : Bytes) : Bytes :=
  if checksums then
    body ++ [space] ++ star :: checkDigits (computeCrc8 (body ++ [space]))
  else body

/-! ## What is read of a report -/

theorem ne_of_isDigit {c d : UInt8} (hc : Hex.isDigit c = true) (hd : Hex.isDigit d = false) :
    c ≠ d := by
  rintro rfl
  rw [hc] at hd
  cases hd

theorem Toggle.mem_words {off on : UInt8} {t : Toggle} {w : Bytes} (hw : w ∈ t.words off on) :
    w = [off] ∨ w = [on] := by
  cases t with
  | kDefault => cases hw
  | kForceOff => exact .inl (List.mem_singleton.mp hw)
  | kForceOn => exact .inr (List.mem_singleton.mp hw)

namespace Report

variable (r : Report)

/-- The letters of the flags are digits, too. -/
theorem isDigit_of_mem_words {w : Bytes} (hw : w ∈ r.words) : ∀ c ∈ w, Hex.isDigit c = true := by
  rw [words, List.mem_cons, List.mem_cons, flags, List.mem_append] at hw
  rcases hw with rfl | rfl | hw | hw
  · exact r.address_hex.2.2
  · exact r.digits_hex.2.2
  · rcases Toggle.mem_words hw with rfl | rfl
    · exact List.forall_mem_singleton.mpr rfl
    · exact List.forall_mem_singleton.mpr rfl
  · rcases Toggle.mem_words hw with rfl | rfl
    · exact List.forall_mem_singleton.mpr rfl
    · exact List.forall_mem_singleton.mpr rfl

theorem mem_fields {c : UInt8} (hc : c ∈ r.fields) : c = space ∨ Hex.isDigit c = true := by
  obtain ⟨w, hw, hc⟩ := List.mem_flatMap.mp hc
  rcases List.mem_cons.mp hc with rfl | hc
  · exact .inl rfl
  · exact .inr (r.isDigit_of_mem_words hw c hc)

end Report

/-- The words of a line that has a blank in front of every word but the first. -/
theorem splitOnP_words {first : Bytes} {words : List Bytes}
    (hfirst : ∀ c ∈ first, isDelimiter c = false)
    (hwords : ∀ w ∈ words, ∀ c ∈ w, isDelimiter c = false) :
    (first ++ words.flatMap (space :: ·)).splitOnP isDelimiter = first :: words := by
  induction words generalizing first with
  | nil => rw [List.flatMap_nil, List.append_nil, List.splitOnP_eq_singleton hfirst]
  | cons w words ih =>
    have hsplit : first ++ (w :: words).flatMap (space :: ·) =
        first ++ space :: (w ++ words.flatMap (space :: ·)) := by
      simp
    rw [hsplit, List.splitOnP_append_cons_of_forall_mem hfirst space rfl,
      ih (hwords w List.mem_cons_self) fun w' hw' => hwords w' (List.mem_cons_of_mem _ hw')]

/-- More text, behind another blank, adds its own words. -/
theorem splitOnP_words_append {first : Bytes} {words : List Bytes}
    (hfirst : ∀ c ∈ first, isDelimiter c = false)
    (hwords : ∀ w ∈ words, ∀ c ∈ w, isDelimiter c = false) (more : Bytes) :
    (first ++ words.flatMap (space :: ·) ++ space :: more).splitOnP isDelimiter =
      first :: words ++ more.splitOnP isDelimiter := by
  induction words generalizing first with
  | nil =>
    rw [List.flatMap_nil, List.append_nil,
      List.splitOnP_append_cons_of_forall_mem hfirst space rfl]
    rfl
  | cons w words ih =>
    have hsplit : first ++ (w :: words).flatMap (space :: ·) ++ space :: more =
        first ++ space :: (w ++ words.flatMap (space :: ·) ++ space :: more) := by
      simp
    rw [hsplit, List.splitOnP_append_cons_of_forall_mem hfirst space rfl,
      ih (hwords w List.mem_cons_self) fun w' hw' => hwords w' (List.mem_cons_of_mem _ hw')]
    rfl

theorem dropBase_of_hex {text : Bytes} (h : ∀ c ∈ text, Hex.isDigit c = true) :
    dropBase text = text := by
  unfold dropBase
  split
  · rename_i x c text
    have hx : Hex.isDigit x = true := h x (by simp)
    rw [if_neg]
    rintro ⟨rfl | rfl, -⟩
    · cases hx
    · cases hx
  · rfl

/-- A number of no more than eight digits is read as it stands. -/
theorem stoul16_of_hex {address : Bytes}
    (h : address ≠ [] ∧ address.length ≤ 8 ∧ ∀ c ∈ address, Hex.isDigit c = true) :
    stoul16 address = some (Hex.value address) := by
  obtain ⟨hne, hlength, hdigits⟩ := h
  obtain ⟨c, text, rfl⟩ := List.exists_cons_of_ne_nil hne
  have hc : Hex.isDigit c = true := hdigits c List.mem_cons_self
  have hspace : isSpace c = false := by
    have hle := Hex.le_of_isDigit hc
    rw [isSpace, decide_eq_false_iff_not, UInt8.le_iff_toNat_le, UInt8.le_iff_toNat_le]
    rintro (rfl | ⟨-, hspace⟩)
    · cases hc
    · have hspace' : c.toNat ≤ 0x0d := hspace
      omega
  have hsign : takeSign (c :: text) = (false, c :: text) := by
    unfold takeSign
    split
    · rename_i heq
      rw [(List.cons.inj heq).1] at hc
      cases hc
    · rename_i heq
      rw [(List.cons.inj heq).1] at hc
      cases hc
    · rfl
  have hvalue : Hex.value (c :: text) < 2 ^ 64 := by
    calc Hex.value (c :: text)
        < 16 ^ (c :: text).length := Hex.value_lt _
      _ ≤ 16 ^ 8 := Nat.pow_le_pow_right (by decide) hlength
      _ < 2 ^ 64 := by decide
  rw [stoul16, List.dropWhile_cons_of_neg (by simp [hspace]), hsign]
  simp only [dropBase_of_hex hdigits, List.takeWhile_eq_self_iff.mpr hdigits]
  rw [if_neg, if_neg (by decide)]
  rintro (hnil | hle)
  · cases hnil
  · exact absurd hvalue (Nat.not_lt.mpr hle)

theorem setFlag_words (frame : Frame) (brs fdcanFrame : Toggle) (h : frame.brs = .kDefault)
    (h' : frame.fdcanFrame = .kDefault) :
    (brs.words 0x62 0x42 ++ fdcanFrame.words 0x66 0x46).foldl Frame.setFlag frame =
      { frame with brs, fdcanFrame } := by
  obtain ⟨arbitrationId, data, _, _⟩ := frame
  subst h h'
  cases brs <;> cases fdcanFrame <;> rfl

/-- The frame of a line that begins with the words of a report. -/
theorem parseRcv_words {line : Bytes} {r : Report} {flags : List Bytes}
    (h : line.splitOnP isDelimiter = ascii "rcv" :: r.address :: r.digits :: flags) :
    parseRcv line = some (some (.frame ((flags.takeWhile (· ≠ [])).foldl Frame.setFlag
      { arbitrationId := BitVec.ofNat 32 (Hex.value r.address),
        data := parsePairs r.digits }))) := by
  have hdata : parseCanData r.digits = parsePairs r.digits := by
    rw [parseCanData, List.take_of_length_le r.digits_hex.2.1]
  have hfirst : token line 0 = ascii "rcv" := by rw [token, h]; rfl
  have haddress : token line 1 = r.address := by rw [token, h]; rfl
  have hdigits : token line 2 = r.digits := by rw [token, h]; rfl
  rw [parseRcv, hfirst, haddress, hdigits, if_neg, stoul16_of_hex r.address_hex, hdata, h]
  · rfl
  · simp [r.address_hex.1, r.digits_hex.1]

theorem Report.flags_ne_nil (r : Report) : ∀ w ∈ r.flags, w ≠ [] := by
  intro w hw
  rcases List.mem_append.mp hw with hw | hw
  · rcases Toggle.mem_words hw with rfl | rfl <;> simp
  · rcases Toggle.mem_words hw with rfl | rfl <;> simp

/-! ## Checks -/

theorem rfind_of_notMem {c : UInt8} {line : Bytes} (h : c ∉ line) : rfind c line = none := by
  induction line with
  | nil => rfl
  | cons x line ih =>
    rw [List.mem_cons, not_or] at h
    rw [rfind, ih h.2]
    exact if_neg (Ne.symm h.1)

theorem rfind_append {c : UInt8} {tail : Bytes} (h : c ∉ tail) (body : Bytes) :
    rfind c (body ++ c :: tail) = some (body, tail) := by
  induction body with
  | nil =>
    rw [List.nil_append, rfind, rfind_of_notMem h]
    exact if_pos rfl
  | cons x body ih => rw [List.cons_append, rfind, ih]

theorem validate_of_notMem {line : Bytes} (h : star ∉ line) (checksumActive : Bool) :
    validate checksumActive line = if checksumActive then none else some line := by
  rw [validate, rfind_of_notMem h]

/-- A check of less than two digits is none. -/
theorem validate_of_short {tail : Bytes} (h : star ∉ tail) (hshort : tail.length < 2)
    (checksumActive : Bool) (body : Bytes) :
    validate checksumActive (body ++ star :: tail) =
      if checksumActive then none else some (body ++ star :: tail) := by
  rw [validate, rfind_append h]
  match tail, hshort with
  | [], _ => rfl
  | [_], _ => rfl

theorem validate_of_digits {x y : UInt8} {hi lo : Nat} (hx : Hex.value? x = some hi)
    (hy : Hex.value? y = some lo) (checksumActive : Bool) (body : Bytes) :
    validate checksumActive (body ++ star :: [x, y]) =
      if UInt8.ofNat (hi * 16 + lo) = computeCrc8 body then some (body.rdropWhile (· = space))
      else none := by
  have hstar : star ∉ [x, y] := by
    intro hmem
    rcases List.mem_cons.mp hmem with rfl | hmem
    · cases hx
    · rw [← List.mem_singleton.mp hmem] at hy
      cases hy
  rw [validate, rfind_append hstar]
  simp only [hx, hy]

/-- Where a digit is none, the line is taken as it stands. -/
theorem validate_of_not_digits {x y : UInt8} (hstar : star ∉ [x, y])
    (h : Hex.value? x = none ∨ Hex.value? y = none) (checksumActive : Bool) (body : Bytes) :
    validate checksumActive (body ++ star :: [x, y]) = some (body ++ star :: [x, y]) := by
  rw [validate, rfind_append hstar]
  rcases h with h | h
  · simp only [h]
  · cases hx : Hex.value? x with
    | none => simp only [hx]
    | some hi => simp only [hx, h]

theorem checkDigits_eq (crc : UInt8) :
    ∃ x y hi lo, checkDigits crc = [x, y] ∧ Hex.value? x = some hi ∧ Hex.value? y = some lo ∧
      UInt8.ofNat (hi * 16 + lo) = crc := by
  have hcrc := crc.toNat_lt
  have hhi : crc.toNat / 16 < 16 := by omega
  have hlo : crc.toNat % 16 < 16 := Nat.mod_lt _ (by decide)
  refine ⟨_, _, _, _, Hex.fixed_two crc, Hex.value?_digit (.inr rfl) hhi,
    Hex.value?_digit (.inr rfl) hlo, ?_⟩
  have hsum : crc.toNat / 16 * 16 + crc.toNat % 16 = crc.toNat := Nat.div_add_mod' _ _
  rw [hsum, UInt8.ofNat_toNat]

/-! ## One report -/

namespace Item

variable (item : Item)

theorem words_hex : ∀ w ∈ item.words, w ≠ [] ∧ ∀ c ∈ w, Hex.isDigit c = true := by
  intro w hw
  cases item with
  | ok => cases hw
  | rcv r =>
    refine ⟨?_, r.isDigit_of_mem_words hw⟩
    rcases List.mem_cons.mp hw with rfl | hw
    · exact r.address_hex.1
    · rcases List.mem_cons.mp hw with rfl | hw
      · exact r.digits_hex.1
      · exact r.flags_ne_nil w hw

theorem mem_body {c : UInt8} (hc : c ∈ item.body) :
    c ∈ item.first ∨ c = space ∨ Hex.isDigit c = true := by
  rcases List.mem_append.mp hc with hc | hc
  · exact .inl hc
  · obtain ⟨w, hw, hc⟩ := List.mem_flatMap.mp hc
    rcases List.mem_cons.mp hc with rfl | hc
    · exact .inr (.inl rfl)
    · exact .inr (.inr ((item.words_hex w hw).2 c hc))

theorem first_cases : item.first = ascii "OK" ∨ item.first = ascii "rcv" := by
  cases item with
  | ok => exact .inl rfl
  | rcv r => exact .inr rfl

theorem mem_first {c : UInt8} (hc : c ∈ item.first) : c ∈ ascii "OKrcv" := by
  cases item with
  | ok => exact List.mem_append_left (ascii "rcv") hc
  | rcv r => exact List.mem_append_right (ascii "OK") hc

/-- Characters that stand in no word and are no blank are not in a report. -/
theorem notMem_body {c : UInt8} (hfirst : c ∉ ascii "OKrcv") (hspace : c ≠ space)
    (hc : Hex.isDigit c = false) : c ∉ item.body := by
  intro hmem
  rcases item.mem_body hmem with hmem | rfl | hmem
  · exact hfirst (item.mem_first hmem)
  · exact hspace rfl
  · rw [hc] at hmem
    cases hmem

theorem star_notMem_body : star ∉ item.body := by
  apply item.notMem_body
  · decide
  · decide
  · decide

theorem not_end_of_mem_body : ∀ c ∈ item.body, isLineEnd c = false := by
  intro c hc
  rw [isLineEnd, decide_eq_false_iff_not]
  rintro (rfl | rfl)
  · exact item.notMem_body (by decide) (by decide) (by decide) hc
  · exact item.notMem_body (by decide) (by decide) (by decide) hc

theorem first_not_delimiter : ∀ c ∈ item.first, isDelimiter c = false := by
  have hletters : (ascii "OKrcv").all (fun c => !isDelimiter c) = true := by decide
  intro c hc
  simpa using List.all_eq_true.mp hletters c (item.mem_first hc)

theorem words_not_delimiter : ∀ w ∈ item.words, ∀ c ∈ w, isDelimiter c = false := by
  intro w hw c hc
  have hdigit := (item.words_hex w hw).2 c hc
  rw [isDelimiter, decide_eq_false_iff_not]
  rintro (rfl | rfl)
  · cases hdigit
  · cases hdigit

/-- A report does not end with a blank. -/
theorem body_snoc : ∃ init c, item.body = init ++ [c] ∧ c ≠ space := by
  rcases List.eq_nil_or_concat item.words with hwords | ⟨words, w, hwords⟩
  · have hbody : item.body = item.first := by
      rw [body, hwords]
      exact List.append_nil _
    rcases item.first_cases with hfirst | hfirst
    · exact ⟨[0x4f], 0x4b, hbody.trans hfirst, by decide⟩
    · exact ⟨[0x72, 0x63], 0x76, hbody.trans hfirst, by decide⟩
  · obtain ⟨hw, hdigits⟩ := item.words_hex w (by simp [hwords])
    obtain rfl | ⟨init, c, rfl⟩ := List.eq_nil_or_concat w
    · exact absurd rfl hw
    · refine ⟨item.first ++ (words.flatMap (space :: ·) ++ space :: init), c, ?_, ?_⟩
      · rw [body, hwords]
        simp
      · exact ne_of_isDigit (hdigits c (by simp)) (by decide)

theorem rdropWhile_body : (item.body ++ [space]).rdropWhile (· = space) = item.body := by
  obtain ⟨init, c, hbody, hc⟩ := item.body_snoc
  rw [List.rdropWhile_concat_pos _ _ _ (by simp), hbody,
    List.rdropWhile_concat_neg _ _ _ (by simpa using hc)]

/-- A line that begins like `rcv` can be nothing but a frame. -/
theorem processLine_of_head {checksumActive : Bool} {line text : Bytes}
    (h : validate checksumActive line = some text) (hhead : text.head? = some 0x72) :
    processLine checksumActive line =
      (parseRcv text).map fun event => (checksumActive, event) := by
  rw [processLine, h]
  simp only
  rw [if_neg, if_neg]
  · rintro ⟨tail, rfl⟩
    have hletter : some (0x45 : UInt8) = some 0x72 := hhead
    exact absurd hletter (by decide)
  · rintro rfl
    exact absurd hhead (by decide)

/-- What a report says, once it has passed its check. -/
theorem processLine_of_validate {checksumActive : Bool} {line : Bytes}
    (h : validate checksumActive line = some item.body) :
    processLine checksumActive line = some (checksumActive, some item.event) := by
  cases item with
  | ok =>
    rw [processLine, h]
    rfl
  | rcv r =>
    have hwords := splitOnP_words (first_not_delimiter (.rcv r)) (words_not_delimiter (.rcv r))
    have hflags : r.flags.takeWhile (· ≠ []) = r.flags :=
      List.takeWhile_eq_self_iff.mpr (by simpa using r.flags_ne_nil)
    have hparse := @parseRcv_words (Item.rcv r).body r r.flags hwords
    rw [processLine_of_head h rfl, hparse, hflags, Report.flags, setFlag_words _ _ _ rfl rfl]
    rfl

theorem lineText_eq_true (body : Bytes) :
    ∃ x y hi lo, lineText true body = (body ++ [space]) ++ star :: [x, y] ∧
      Hex.value? x = some hi ∧ Hex.value? y = some lo ∧
      UInt8.ofNat (hi * 16 + lo) = computeCrc8 (body ++ [space]) := by
  obtain ⟨x, y, hi, lo, hdigits, hx, hy, hcrc⟩ := checkDigits_eq (computeCrc8 (body ++ [space]))
  refine ⟨x, y, hi, lo, ?_, hx, hy, hcrc⟩
  rw [lineText, if_pos rfl, hdigits]

/-- **A report says what it means**, with its checksum, or without one where none is asked for. -/
theorem processLine_lineText {checksums checksumActive : Bool}
    (hactive : checksumActive = true → checksums = true) :
    processLine checksumActive (lineText checksums item.body) =
      some (checksumActive, some item.event) := by
  apply item.processLine_of_validate
  cases checksums with
  | false =>
    cases checksumActive with
    | false => exact validate_of_notMem item.star_notMem_body false
    | true => cases hactive rfl
  | true =>
    obtain ⟨x, y, hi, lo, htext, hx, hy, hcrc⟩ := lineText_eq_true item.body
    rw [htext, validate_of_digits hx hy, if_pos hcrc, item.rdropWhile_body]

end Item

/-! ## Many reports -/

/-- What the lines of a text say. -/
def said (checksumActive : Bool) (bytes : Bytes) : Option (Bool × List Event) :=
  processLines checksumActive (Lines.complete isLineEnd bytes).1

/-- A report on a line of its own; the line may have more ends than one, as in `\\r\\n`. -/
structure Line where
  item : Item
  ends : Bytes
  ends_ok : ends ≠ [] ∧ ∀ c ∈ ends, isLineEnd c = true

def stream (checksums : Bool) (lines : List Line) : Bytes :=
  lines.flatMap fun line => lineText checksums line.item.body ++ line.ends

theorem processLine_nil (checksumActive : Bool) :
    processLine checksumActive [] = some (checksumActive, none) := by
  cases checksumActive with
  | false => rfl
  | true => rfl

theorem said_ends {checksumActive : Bool} {ends : Bytes} (h : ∀ c ∈ ends, isLineEnd c = true)
    (more : Bytes) : said checksumActive (ends ++ more) = said checksumActive more := by
  induction ends with
  | nil => rfl
  | cons c ends ih =>
    have htail := ih fun c' hc' => h c' (List.mem_cons_of_mem _ hc')
    rw [List.cons_append, ← htail, said, Lines.complete_cons_of_end (h c List.mem_cons_self), said,
      processLines_cons (processLine_nil checksumActive)]
    cases processLines checksumActive (Lines.complete isLineEnd (ends ++ more)).1 with
    | none => rfl
    | some result => rfl

/-- A line says what it says, and then the rest is read. -/
theorem said_line {checksumActive active : Bool} {text ends : Bytes} {event : Option Event}
    (htext : ∀ c ∈ text, isLineEnd c = false) (hends : ends ≠ [] ∧ ∀ c ∈ ends, isLineEnd c = true)
    (hline : processLine checksumActive text = some (active, event)) (more : Bytes) :
    said checksumActive (text ++ ends ++ more) =
      (said active more).map fun (active, events) => (active, event.toList ++ events) := by
  obtain ⟨hne, hends⟩ := hends
  obtain ⟨e, ends, rfl⟩ := List.exists_cons_of_ne_nil hne
  have hrest := @said_ends active ends
    (fun c hc => hends c (List.mem_cons_of_mem _ hc)) more
  rw [List.append_assoc, List.cons_append, said,
    Lines.complete_record htext (hends e List.mem_cons_self), processLines_cons hline, ← hrest, said]

theorem not_end_of_mem_lineText {checksums : Bool} {item : Item} :
    ∀ c ∈ lineText checksums item.body, isLineEnd c = false := by
  intro c hc
  cases checksums with
  | false => exact item.not_end_of_mem_body c hc
  | true =>
    rw [lineText, if_pos rfl, List.append_assoc, List.mem_append] at hc
    rcases hc with hc | hc
    · exact item.not_end_of_mem_body c hc
    · rw [List.singleton_append, List.mem_cons, List.mem_cons] at hc
      rcases hc with rfl | rfl | hc
      · rfl
      · rfl
      · have hdigit : Hex.isDigit c = true := Hex.isDigit_of_mem_fixed (.inr rfl) hc
        rw [isLineEnd, decide_eq_false_iff_not]
        rintro (rfl | rfl)
        · cases hdigit
        · cases hdigit

theorem said_stream {checksums checksumActive : Bool}
    (hactive : checksumActive = true → checksums = true) (lines : List Line) (more : Bytes) :
    said checksumActive (stream checksums lines ++ more) =
      (said checksumActive more).map
        fun (active, events) => (active, lines.map (·.item.event) ++ events) := by
  induction lines with
  | nil =>
    cases hmore : said checksumActive more with
    | none => exact hmore
    | some result => exact hmore
  | cons line lines ih =>
    have hsplit : stream checksums (line :: lines) ++ more =
        lineText checksums line.item.body ++ line.ends ++ (stream checksums lines ++ more) := by
      simp [stream]
    rw [hsplit, said_line not_end_of_mem_lineText line.ends_ok
      (line.item.processLine_lineText hactive), ih, Option.map_map]
    rfl

theorem said_nil (checksumActive : Bool) : said checksumActive [] = some (checksumActive, []) := rfl

theorem said_lines {checksums checksumActive : Bool}
    (hactive : checksumActive = true → checksums = true) (lines : List Line) :
    said checksumActive (stream checksums lines) =
      some (checksumActive, lines.map (·.item.event)) := by
  have hsaid := said_stream hactive lines []
  rw [List.append_nil, said_nil] at hsaid
  simpa using hsaid

/-! ### Short lines -/

/-- No line of a text, and no part of one at its end, has so many characters. -/
def Short (size : Nat) (bytes : Bytes) : Prop :=
  ∀ pre, pre <+: bytes → (Lines.complete isLineEnd pre).2.length < size

theorem short_nil {size : Nat} (hsize : 0 < size) : Short size [] := by
  intro pre hpre
  rw [List.prefix_nil.mp hpre]
  exact hsize

theorem Short.line {size : Nat} {text : Bytes} (htext : ∀ c ∈ text, isLineEnd c = false)
    (hlength : text.length < size) {e : UInt8} (he : isLineEnd e = true) {more : Bytes}
    (h : Short size more) : Short size (text ++ e :: more) := by
  intro pre hpre
  have hinside : ∀ pre, pre <+: text → (Lines.complete isLineEnd pre).2.length < size := by
    intro pre hpre
    rw [Lines.complete_of_forall fun c hc => htext c (hpre.subset hc)]
    exact hpre.length_le.trans_lt hlength
  rcases List.prefix_or_prefix_of_prefix hpre (List.prefix_append text (e :: more)) with
    htext' | ⟨tail, rfl⟩
  · exact hinside pre htext'
  · rcases List.prefix_cons_iff.mp ((List.prefix_append_right_inj text).mp hpre) with
      rfl | ⟨tail', rfl, htail⟩
    · rw [List.append_nil]
      exact hinside text (List.prefix_refl text)
    · rw [Lines.complete_record htext he]
      exact h tail' htail

theorem Short.ends {size : Nat} (hsize : 0 < size) {ends : Bytes}
    (hends : ∀ c ∈ ends, isLineEnd c = true) {more : Bytes} (h : Short size more) :
    Short size (ends ++ more) := by
  induction ends with
  | nil => exact h
  | cons c ends ih =>
    have htail := ih fun c' hc' => hends c' (List.mem_cons_of_mem _ hc')
    exact Short.line (List.forall_mem_nil _) hsize (hends c List.mem_cons_self) htail

theorem Short.lines {size : Nat} {text ends : Bytes} (htext : ∀ c ∈ text, isLineEnd c = false)
    (hlength : text.length < size) (hends : ends ≠ [] ∧ ∀ c ∈ ends, isLineEnd c = true)
    {more : Bytes} (h : Short size more) : Short size (text ++ ends ++ more) := by
  obtain ⟨hne, hends⟩ := hends
  obtain ⟨e, ends, rfl⟩ := List.exists_cons_of_ne_nil hne
  have hrest := h.ends (Nat.zero_lt_of_lt hlength) fun c hc => hends c (List.mem_cons_of_mem _ hc)
  rw [List.append_assoc]
  exact hrest.line htext hlength (hends e List.mem_cons_self)

theorem Toggle.length_words (off on : UInt8) (t : Toggle) :
    ((t.words off on).flatMap (space :: ·)).length ≤ 2 := by
  cases t with
  | kDefault => exact Nat.zero_le 2
  | kForceOff => exact Nat.le_refl 2
  | kForceOn => exact Nat.le_refl 2

theorem Item.length_body_le (item : Item) : item.body.length ≤ 145 := by
  cases item with
  | ok => decide
  | rcv r =>
    have haddress := r.address_hex.2.1
    have hdigits := r.digits_hex.2.1
    have hbrs := r.brs.length_words 0x62 0x42
    have hfdcan := r.fdcanFrame.length_words 0x66 0x46
    have hfirst : (Item.rcv r).first.length = 3 := rfl
    rw [body, List.length_append, hfirst, words, Report.words, List.flatMap_cons, List.flatMap_cons,
      Report.flags, List.flatMap_append]
    simp only [List.length_append, List.length_cons]
    omega

theorem length_lineText_le (checksums : Bool) (body : Bytes) :
    (lineText checksums body).length ≤ body.length + 4 := by
  cases checksums with
  | false => exact Nat.le_add_right _ 4
  | true =>
    rw [lineText, if_pos rfl, checkDigits]
    simp

theorem short_stream {checksums : Bool} (lines : List Line) {more : Bytes}
    (h : Short lineBufferSize more) : Short lineBufferSize (stream checksums lines ++ more) := by
  induction lines with
  | nil => exact h
  | cons line lines ih =>
    have hsplit : stream checksums (line :: lines) ++ more =
        lineText checksums line.item.body ++ line.ends ++ (stream checksums lines ++ more) := by
      simp [stream]
    have hlength : (lineText checksums line.item.body).length < lineBufferSize := by
      have htext := length_lineText_le checksums line.item.body
      have hbody := line.item.length_body_le
      rw [lineBufferSize]
      omega
    rw [hsplit]
    exact ih.lines not_end_of_mem_lineText hlength line.ends_ok

theorem short_lines (checksums : Bool) (lines : List Line) :
    Short lineBufferSize (stream checksums lines) := by
  have hshort := @short_stream checksums lines _ (short_nil (by decide))
  rwa [List.append_nil] at hshort

/-! ## What comes in -/

theorem readable_of_said {checksumActive : Bool} {bytes : Bytes} {result : Bool × List Event}
    (hshort : Short lineBufferSize bytes) (hsaid : said checksumActive bytes = some result) :
    Readable checksumActive bytes := by
  refine ⟨hshort, ?_⟩
  rw [← said, hsaid]
  rfl

/-- What a text says comes in one by one, and once all of it has been read, all that it says. -/
theorem port_said {checksumActive active : Bool} {bytes : Bytes} {events : List Event}
    (hshort : Short lineBufferSize bytes) (hsaid : said checksumActive bytes = some (active, events))
    {es : List PortEvent} (harrived : arrivals es <+: bytes) :
    port.trace (.opened checksumActive) es <+: events ∧
      (arrivals es = bytes → (port.after (.opened checksumActive) es).fifo = [] →
        port.trace (.opened checksumActive) es = events) := by
  obtain ⟨done, active', events', hsplit, hdone, -, htrace⟩ :=
    port_lines es ((readable_of_said hshort hsaid).initial harrived)
  have hpre : done <+: bytes := by
    apply List.IsPrefix.trans _ harrived
    rw [hsplit]
    exact List.prefix_append _ _
  rw [htrace]
  constructor
  · obtain ⟨rest, hrest⟩ := hpre
    rw [← hrest, said, Lines.complete_append, processLines_append, hdone, Option.bind_some] at hsaid
    obtain ⟨result, -, hresult⟩ := Option.map_eq_some_iff.mp hsaid
    rw [← (Prod.mk.inj hresult).2]
    exact List.prefix_append _ _
  · intro hall hread
    rw [hread, List.append_nil] at hsplit
    rw [← hsplit, hall, ← said, hsaid] at hdone
    exact (Prod.mk.inj (Option.some.inj hdone)).2.symm

/-- **Reports come in one by one**, in order and as they are meant, however they are spread over the
reads; and once all has been read, all of them have. -/
theorem reports_received {checksums checksumActive : Bool}
    (hactive : checksumActive = true → checksums = true) (lines : List Line)
    {es : List PortEvent} (harrived : arrivals es <+: stream checksums lines) :
    port.trace (.opened checksumActive) es <+: lines.map (·.item.event) ∧
      (arrivals es = stream checksums lines →
        (port.after (.opened checksumActive) es).fifo = [] →
          port.trace (.opened checksumActive) es = lines.map (·.item.event)) := by
  exact port_said (short_lines checksums lines) (said_lines hactive lines) harrived

end Fdcanusb
