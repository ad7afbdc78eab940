import RobotFramework.Fdcanusb.Send

/-!
# `mjbots/moteus/moteus_transport.h`: damaged lines

The checksum is a CRC, and no two lines of one length that differ in one byte have the same
(`computeCrc8_ne_of_changed`). But the check is skipped where its own digits are damaged, and a byte
that becomes the end of a line makes two lines of one.

Still **one damaged byte makes no frame that was not sent**, as long as checksums are asked for:
what comes in is what was reported, or that without the damaged report (`damage_harmless`). Only its
flags are not to be trusted, as the digit of a check that has lost the other one may be read as a
flag.
-/

namespace Fdcanusb

open Function Reactive

/-! ## The checksum -/

theorem forall_byte {p : UInt8 → Prop} (h : ∀ n < 256, p (UInt8.ofNat n)) (b : UInt8) : p b := by
  have hb := h b.toNat b.toNat_lt
  rwa [UInt8.ofNat_toNat] at hb

/-- Half a byte of what is shifted out comes back. -/
theorem shift_back (crc : UInt8) : (crc <<< 4) >>> 4 = crc &&& 0x0f ∧ (crc <<< 4) <<< 4 = 0 := by
  revert crc
  apply forall_byte
  decide +kernel

theorem xor_and (a b c : UInt8) : (a ^^^ b) &&& c = (a &&& c) ^^^ (b &&& c) := by
  apply UInt8.toBitVec_inj.mp
  ext i
  simp only [UInt8.toBitVec_and, UInt8.toBitVec_xor, BitVec.getElem_and, BitVec.getElem_xor]
  cases a.toBitVec[i] <;> cases b.toBitVec[i] <;> cases c.toBitVec[i] <;> rfl

theorem crc8Nybble_xor (crc shift b : UInt8) :
    crc8Nybble (crc ^^^ shift) b = crc8Nybble crc ((shift >>> 4) ^^^ b) ^^^ (shift <<< 4) := by
  rw [crc8Nybble, crc8Nybble, UInt8.shiftRight_xor, UInt8.shiftLeft_xor, UInt8.xor_assoc,
    UInt8.xor_assoc]

/-- **The step depends on the sum of its arguments.** -/
theorem crc8Byte_xor (crc b : UInt8) : crc8Byte crc b = crc8Byte 0 (crc ^^^ b) := by
  have hfirst : crc8Nybble crc (b >>> 4) =
      crc8Nybble 0 ((crc ^^^ b) >>> 4) ^^^ (crc <<< 4) := by
    rw [UInt8.shiftRight_xor, ← crc8Nybble_xor, UInt8.zero_xor]
  rw [crc8Byte, hfirst, crc8Nybble_xor, (shift_back crc).1, (shift_back crc).2, ← xor_and,
    UInt8.xor_zero, crc8Byte]

/-- The table by its lower halves, which are all different. -/
def crc8Low : List Nat := kCrc8Table.map fun b => b.toNat % 16

/-- What the step makes a byte from. -/
def crc8Before (crc : UInt8) : UInt8 :=
  let second := crc8Low.idxOf (crc.toNat % 16)
  let first := crc8Low.idxOf ((crc ^^^ kCrc8Table.getD second 0).toNat / 16)
  UInt8.ofNat first <<< 4 ||| ((UInt8.ofNat second ^^^ (kCrc8Table.getD first 0 >>> 4)) &&& 0x0f)

theorem crc8Before_crc8Byte (b : UInt8) : crc8Before (crc8Byte 0 b) = b := by
  revert b
  apply forall_byte
  decide +kernel

theorem crc8Byte_injective : Injective (crc8Byte 0) :=
  LeftInverse.injective crc8Before_crc8Byte

/-- **One changed byte changes the checksum.** -/
theorem computeCrc8_ne_of_changed {c d : UInt8} (hne : c ≠ d) (pre post : Bytes) :
    computeCrc8 (pre ++ c :: post) ≠ computeCrc8 (pre ++ d :: post) := by
  apply Checksum.foldl_ne_of_changed _ _ hne
  · intro b crc crc' heq
    simp only at heq
    rw [crc8Byte_xor, crc8Byte_xor crc'] at heq
    exact (UInt8.xor_left_inj b).mp (crc8Byte_injective heq)
  · intro crc b b' heq
    rw [crc8Byte_xor, crc8Byte_xor crc b'] at heq
    exact (UInt8.xor_right_inj crc).mp (crc8Byte_injective heq)

/-! ## A damaged line -/

/-- An event without the flags of its frame. -/
def Event.plain : Event → Event
  | ok => .ok
  | frame f => .frame { f with brs := .kDefault, fdcanFrame := .kDefault }

theorem Event.plain_nothing {event : Event} :
    ∀ e ∈ (none : Option Event), e.plain = event.plain := by
  intro e he
  cases he

theorem processLine_of_validate_none {checksumActive : Bool} {line : Bytes}
    (h : validate checksumActive line = none) :
    processLine checksumActive line = some (checksumActive, none) := by
  rw [processLine, h]

/-- A line without a check is discarded. -/
theorem processLine_of_notMem {line : Bytes} (h : star ∉ line) :
    processLine true line = some (true, none) := by
  apply processLine_of_validate_none
  rw [validate_of_notMem h]
  rfl

theorem processLine_of_short {tail : Bytes} (h : star ∉ tail) (hshort : tail.length < 2)
    (body : Bytes) : processLine true (body ++ star :: tail) = some (true, none) := by
  apply processLine_of_validate_none
  rw [validate_of_short h hshort]
  rfl

/-- So is one whose check does not fit. -/
theorem processLine_of_crc_ne {x y : UInt8} {hi lo : Nat} (hx : Hex.value? x = some hi)
    (hy : Hex.value? y = some lo) {body : Bytes}
    (hne : UInt8.ofNat (hi * 16 + lo) ≠ computeCrc8 body) :
    processLine true (body ++ star :: [x, y]) = some (true, none) := by
  apply processLine_of_validate_none
  rw [validate_of_digits hx hy, if_neg hne]

theorem foldl_setFlag (frame : Frame) (flags : List Bytes) :
    (Event.frame (flags.foldl Frame.setFlag frame)).plain = (Event.frame frame).plain := by
  induction flags generalizing frame with
  | nil => rfl
  | cons flag flags ih =>
    rw [List.foldl_cons, ih, Frame.setFlag]
    split_ifs <;> rfl

namespace Item

variable (item : Item)

/-- More behind a report, in words of its own, changes its flags at most. -/
theorem processLine_of_validate_append {line more : Bytes}
    (h : validate true line = some (item.body ++ space :: more)) :
    ∃ event : Option Event, processLine true line = some (true, event) ∧
      ∀ e ∈ event, e.plain = item.event.plain := by
  have hwords := splitOnP_words_append item.first_not_delimiter item.words_not_delimiter more
  cases item with
  | ok =>
    rw [processLine, h]
    have hlength : (Item.ok.body ++ space :: more).length ≠ (ascii "OK").length := by
      have hbody : Item.ok.body.length = (ascii "OK").length := rfl
      rw [List.length_append, hbody, List.length_cons]
      omega
    have hfirst : token (Item.ok.body ++ space :: more) 0 ≠ ascii "rcv" := by
      have htoken : token (Item.ok.body ++ space :: more) 0 = ascii "OK" := by
        rw [token, body, hwords]
        rfl
      rw [htoken]
      decide
    refine ⟨none, ?_, Event.plain_nothing⟩
    simp only
    rw [if_neg fun heq => hlength (congrArg List.length heq)]
    split
    · rfl
    · rw [parseRcv, if_pos (.inl hfirst)]
      rfl
  | rcv r =>
    have hparse := @parseRcv_words ((Item.rcv r).body ++ space :: more) r
      (r.flags ++ more.splitOnP isDelimiter) hwords
    have hplain := foldl_setFlag { arbitrationId := BitVec.ofNat 32 (Hex.value r.address),
                                   data := parsePairs r.digits }
      ((r.flags ++ more.splitOnP isDelimiter).takeWhile (· ≠ []))
    generalize List.foldl _ _ _ = frame at hparse hplain
    refine ⟨some (.frame frame), ?_, ?_⟩
    · rw [processLine_of_head h rfl, hparse]
      rfl
    · intro e he
      cases he
      exact hplain

/-- Whatever becomes of its check, a report says what it means, or nothing. -/
theorem processLine_of_digits (x y : UInt8) :
    ∃ event : Option Event,
      processLine true ((item.body ++ [space]) ++ star :: [x, y]) = some (true, event) ∧
        ∀ e ∈ event, e.plain = item.event.plain := by
  by_cases hy : y = star
  · subst hy
    refine ⟨none, ?_, Event.plain_nothing⟩
    rw [List.append_cons, List.append_cons]
    exact processLine_of_short List.not_mem_nil (by decide) _
  by_cases hx : x = star
  · subst hx
    refine ⟨none, ?_, Event.plain_nothing⟩
    rw [List.append_cons]
    have htail : star ∉ [y] := by simpa using Ne.symm hy
    exact processLine_of_short htail (Nat.lt_succ_self 1) _
  have hstar : star ∉ [x, y] := by simp [Ne.symm hx, Ne.symm hy]
  by_cases hdigits : Hex.value? x = none ∨ Hex.value? y = none
  · apply item.processLine_of_validate_append
    rw [validate_of_not_digits hstar hdigits, List.append_assoc]
    rfl
  · rw [not_or] at hdigits
    obtain ⟨hi, hhi⟩ := Option.ne_none_iff_exists'.mp hdigits.1
    obtain ⟨lo, hlo⟩ := Option.ne_none_iff_exists'.mp hdigits.2
    by_cases hcrc : UInt8.ofNat (hi * 16 + lo) = computeCrc8 (item.body ++ [space])
    · refine ⟨some item.event, ?_, fun e he => by cases he; rfl⟩
      apply item.processLine_of_validate
      rw [validate_of_digits hhi hlo, if_pos hcrc, item.rdropWhile_body]
    · exact ⟨none, processLine_of_crc_ne hhi hlo hcrc, Event.plain_nothing⟩

/-- Only the first letter of a report is one that begins a line with a meaning. -/
theorem notMem_rest {pre post : Bytes} {c : UInt8}
    (h : item.body ++ [space] = pre ++ c :: post) : 0x72 ∉ post ∧ 0x4f ∉ post := by
  obtain ⟨first, rest, hsplit, hr, hO⟩ : ∃ first rest, item.body ++ [space] = first :: rest ∧
      0x72 ∉ rest ∧ 0x4f ∉ rest := by
    cases item with
    | ok => exact ⟨0x4f, ascii "K ", rfl, by decide, by decide⟩
    | rcv r =>
      have hrest : ∀ d, Hex.isDigit d = false → d ≠ space → d ∉ ascii "cv" →
          d ∉ ascii "cv" ++ r.fields ++ [space] := by
        intro d hdigit hspace hletters hmem
        rw [List.mem_append, List.mem_append, List.mem_singleton] at hmem
        rcases hmem with (hmem | hmem) | hmem
        · exact hletters hmem
        · rcases r.mem_fields hmem with hmem | hmem
          · exact hspace hmem
          · rw [hdigit] at hmem
            cases hmem
        · exact hspace hmem
      exact ⟨0x72, ascii "cv" ++ r.fields ++ [space], rfl,
        hrest _ (by decide) (by decide) (by decide), hrest _ (by decide) (by decide) (by decide)⟩
  have hsub : ∀ d, d ∈ post → d ∈ rest := by
    intro d hd
    rw [hsplit] at h
    cases pre with
    | nil => rwa [(List.cons.inj h).2]
    | cons first' pre =>
      rw [(List.cons.inj h).2]
      exact List.mem_append_right pre (List.mem_cons_of_mem c hd)
  exact ⟨fun hmem => hr (hsub _ hmem), fun hmem => hO (hsub _ hmem)⟩

end Item

/-- The rest of a report says nothing, even if its check fits. -/
theorem processLine_rest {post : Bytes} (hr : 0x72 ∉ post) (hO : 0x4f ∉ post) {x y : UInt8}
    {hi lo : Nat} (hx : Hex.value? x = some hi) (hy : Hex.value? y = some lo) :
    processLine true (post ++ star :: [x, y]) = some (true, none) := by
  by_cases hcrc : UInt8.ofNat (hi * 16 + lo) = computeCrc8 post
  · have hsub : ∀ c, c ∈ post.rdropWhile (· = space) → c ∈ post := by
      intro c hc
      exact (List.rdropWhile_prefix _ _).subset hc
    have hfirst : token (post.rdropWhile (· = space)) 0 ≠ ascii "rcv" := by
      intro heq
      obtain ⟨w, ws, hsplit⟩ := List.exists_cons_of_ne_nil
        (List.splitOnP_ne_nil isDelimiter (post.rdropWhile (· = space)))
      have hw : w = ascii "rcv" := by
        rw [← heq, token, hsplit]
        rfl
      apply hr
      apply hsub
      apply Lines.mem_of_mem_splitOnP (hsplit ▸ List.mem_cons_self) 0x72
      rw [hw]
      decide
    rw [processLine, validate_of_digits hx hy, if_pos hcrc]
    simp only
    rw [if_neg]
    · split
      · rfl
      · rw [parseRcv, if_pos (.inl hfirst)]
        rfl
    · intro heq
      apply hO
      apply hsub
      rw [heq]
      decide
  · exact processLine_of_crc_ne hx hy hcrc

/-! ## A damaged byte -/

/-- The damage is in the words, in the blank behind them, or in the check. -/
theorem damage_cases {body pre post : Bytes} {c x y : UInt8}
    (h : pre ++ c :: post = body ++ star :: [x, y]) :
    (∃ rest, body = pre ++ c :: rest ∧ post = rest ++ star :: [x, y]) ∨
      (pre = body ∧ c = star ∧ post = [x, y]) ∨ (pre = body ++ [star] ∧ post = [y]) ∨
      (pre = body ++ [star, x] ∧ post = []) := by
  rcases List.append_eq_append_iff.mp h with ⟨rest, hbody, hpost⟩ | ⟨rest, hpre, hpost⟩
  · cases rest with
    | nil =>
      rw [List.append_nil] at hbody
      exact .inr (.inl ⟨hbody.symm, (List.cons.inj hpost).1, (List.cons.inj hpost).2⟩)
    | cons c' rest =>
      obtain ⟨rfl, hrest⟩ := List.cons.inj hpost
      exact .inl ⟨rest, hbody, hrest⟩
  · match rest, hpost with
    | [], hpost =>
      simp only [List.nil_append, List.cons.injEq] at hpost
      exact .inr (.inl ⟨by rw [hpre, List.append_nil], hpost.1.symm, hpost.2.symm⟩)
    | [c'], hpost =>
      simp only [List.cons_append, List.nil_append, List.cons.injEq] at hpost
      exact .inr (.inr (.inl ⟨by rw [hpre, hpost.1], hpost.2.2.symm⟩))
    | [c', x'], hpost =>
      simp only [List.cons_append, List.nil_append, List.cons.injEq] at hpost
      exact .inr (.inr (.inr ⟨by rw [hpre, hpost.1, hpost.2.1], hpost.2.2.2.symm⟩))
    | c' :: x' :: y' :: rest, hpost =>
      have hlength := congrArg List.length hpost
      simp at hlength

variable {item : Item} {pre post : Bytes} {c d : UInt8}

theorem star_notMem_digits {x y : UInt8} {hi lo : Nat} (hx : Hex.value? x = some hi)
    (hy : Hex.value? y = some lo) : star ∉ [x, y] := by
  intro hmem
  rcases List.mem_cons.mp hmem with rfl | hmem
  · cases hx
  · rw [← List.mem_singleton.mp hmem] at hy
    cases hy

theorem Item.star_notMem_body_append (item : Item) : star ∉ item.body ++ [space] := by
  intro hmem
  rcases List.mem_append.mp hmem with hmem | hmem
  · exact item.star_notMem_body hmem
  · exact absurd (List.mem_singleton.mp hmem) (by decide)

/-- Within its line a damaged report says what it means, or nothing. -/
theorem processLine_damaged (h : lineText true item.body = pre ++ c :: post) :
    ∃ event : Option Event, processLine true (pre ++ d :: post) = some (true, event) ∧
      ∀ e ∈ event, e.plain = item.event.plain := by
  by_cases hne : c = d
  · subst hne
    refine ⟨some item.event, ?_, fun e he => by cases he; rfl⟩
    rw [← h]
    exact item.processLine_lineText fun _ => rfl
  obtain ⟨x, y, hi, lo, htext, hx, hy, hcrc⟩ := Item.lineText_eq_true item.body
  rcases damage_cases (h.symm.trans htext) with
    ⟨rest, hbody, rfl⟩ | ⟨rfl, rfl, rfl⟩ | ⟨rfl, rfl⟩ | ⟨rfl, rfl⟩
  · refine ⟨none, ?_, Event.plain_nothing⟩
    rw [← List.cons_append, ← List.append_assoc]
    apply processLine_of_crc_ne hx hy
    rw [hcrc, hbody]
    exact computeCrc8_ne_of_changed hne pre rest
  · refine ⟨none, processLine_of_notMem ?_, Event.plain_nothing⟩
    intro hmem
    rcases List.mem_append.mp hmem with hmem | hmem
    · exact item.star_notMem_body_append hmem
    · rcases List.mem_cons.mp hmem with heq | hmem
      · exact hne heq
      · exact star_notMem_digits hx hy hmem
  · rw [List.append_assoc]
    exact item.processLine_of_digits d y
  · rw [List.append_assoc]
    exact item.processLine_of_digits x d

/-- Where it is torn in two, neither part says anything. -/
theorem processLine_torn (h : lineText true item.body = pre ++ c :: post) :
    processLine true pre = some (true, none) ∧ processLine true post = some (true, none) := by
  obtain ⟨x, y, hi, lo, htext, hx, hy, -⟩ := Item.lineText_eq_true item.body
  have hdigits := star_notMem_digits hx hy
  have hx' : star ∉ [x] := by
    intro hmem
    apply hdigits
    exact List.mem_cons.mpr (.inl (List.mem_singleton.mp hmem))
  have hy' : star ∉ [y] := by
    intro hmem
    exact hdigits (List.mem_cons_of_mem x hmem)
  rcases damage_cases (h.symm.trans htext) with
    ⟨rest, hbody, rfl⟩ | ⟨rfl, rfl, rfl⟩ | ⟨rfl, rfl⟩ | ⟨rfl, rfl⟩
  · obtain ⟨hr, hO⟩ := item.notMem_rest hbody
    refine ⟨processLine_of_notMem ?_, processLine_rest hr hO hx hy⟩
    intro hmem
    apply item.star_notMem_body_append
    rw [hbody]
    exact List.mem_append_left _ hmem
  · exact ⟨processLine_of_notMem item.star_notMem_body_append, processLine_of_notMem hdigits⟩
  · exact ⟨processLine_of_short List.not_mem_nil Nat.zero_lt_two _, processLine_of_notMem hy'⟩
  · exact ⟨processLine_of_short hx' (Nat.lt_succ_self 1) _,
      processLine_of_notMem List.not_mem_nil⟩

/-! ## A damaged stream -/

/-- What is left of a report has no end of a line in it. -/
theorem not_end_of_damaged (h : lineText true item.body = pre ++ c :: post) :
    (∀ e ∈ pre, isLineEnd e = false) ∧ (∀ e ∈ post, isLineEnd e = false) := by
  have htext : ∀ e ∈ pre ++ c :: post, isLineEnd e = false := h ▸ not_end_of_mem_lineText
  constructor
  · intro e he
    exact htext e (List.mem_append_left _ he)
  · intro e he
    exact htext e (List.mem_append_right _ (List.mem_cons_of_mem c he))

/-- So it is still one line, unless the damaged byte is one. -/
theorem not_end_of_mem_damaged (h : lineText true item.body = pre ++ c :: post)
    (hd : isLineEnd d = false) : ∀ e ∈ pre ++ d :: post, isLineEnd e = false := by
  obtain ⟨hpre, hpost⟩ := not_end_of_damaged h
  intro e he
  rcases List.mem_append.mp he with he | he
  · exact hpre e he
  · rcases List.mem_cons.mp he with rfl | he
    · exact hd
    · exact hpost e he

theorem append_torn (pre post ends more : Bytes) (d : UInt8) :
    pre ++ d :: post ++ ends ++ more = pre ++ [d] ++ (post ++ ends ++ more) := by
  simp only [List.append_assoc, List.cons_append, List.nil_append]

/-- A damaged report adds what it means, or nothing, to what the rest says. -/
theorem said_damaged (h : lineText true item.body = pre ++ c :: post) {ends : Bytes}
    (hends : ends ≠ [] ∧ ∀ e ∈ ends, isLineEnd e = true) :
    ∃ event : Option Event, (∀ e ∈ event, e.plain = item.event.plain) ∧
      ∀ more, said true (pre ++ d :: post ++ ends ++ more) =
        (said true more).map fun (active, events) => (active, event.toList ++ events) := by
  cases hd : isLineEnd d with
  | true =>
    obtain ⟨hpre, hpost⟩ := not_end_of_damaged h
    obtain ⟨hfirst, hsecond⟩ := processLine_torn h
    refine ⟨none, Event.plain_nothing, ?_⟩
    intro more
    rw [append_torn,
      said_line hpre ⟨List.cons_ne_nil _ _, List.forall_mem_singleton.mpr hd⟩ hfirst,
      said_line hpost hends hsecond, Option.map_map]
    rfl
  | false =>
    obtain ⟨event, hline, hevent⟩ := processLine_damaged (d := d) h
    exact ⟨event, hevent, said_line (not_end_of_mem_damaged h hd) hends hline⟩

theorem short_damaged (h : lineText true item.body = pre ++ c :: post) {ends : Bytes}
    (hends : ends ≠ [] ∧ ∀ e ∈ ends, isLineEnd e = true) {more : Bytes}
    (hmore : Short lineBufferSize more) :
    Short lineBufferSize (pre ++ d :: post ++ ends ++ more) := by
  have hlength : pre.length + (post.length + 1) ≤ 149 := by
    have hline := length_lineText_le true item.body
    have hbody := item.length_body_le
    rw [h, List.length_append, List.length_cons] at hline
    omega
  have hsize : lineBufferSize = 4096 := rfl
  cases hd : isLineEnd d with
  | true =>
    obtain ⟨hpre, hpost⟩ := not_end_of_damaged h
    rw [append_torn, ← List.append_cons]
    apply Short.line hpre (by omega) hd
    exact hmore.lines hpost (by omega) hends
  | false =>
    apply hmore.lines (not_end_of_mem_damaged h hd) _ hends
    rw [List.length_append, List.length_cons]
    omega

/-- **One damaged byte makes no frame that was not reported.** Whichever byte of a report it is, and
whatever becomes of it, all other reports come in as they are meant, and this one, too, but for its
flags, or not at all. -/
theorem damage_harmless {before after : List Line} {line : Line}
    (htext : lineText true line.item.body = pre ++ c :: post) {es : List PortEvent}
    (harrived : arrivals es =
      stream true before ++ (pre ++ d :: post ++ line.ends ++ stream true after))
    (hread : (port.after (.opened true) es).fifo = []) :
    ∃ event : Option Event, (∀ e ∈ event, e.plain = line.item.event.plain) ∧
      port.trace (.opened true) es =
        before.map (·.item.event) ++ (event.toList ++ after.map (·.item.event)) := by
  obtain ⟨event, hevent, hdamaged⟩ := said_damaged (d := d) htext line.ends_ok
  refine ⟨event, hevent, ?_⟩
  have hsaid := @said_stream true true id before
    (pre ++ d :: post ++ line.ends ++ stream true after)
  rw [hdamaged, said_lines id after, Option.map_some, Option.map_some] at hsaid
  have hshort := @short_stream true before _
    (short_damaged (d := d) htext line.ends_ok (short_lines true after))
  exact (port_said hshort hsaid (by rw [harrived])).2 harrived hread

/-- The flags are not to be trusted: the second digit of this check is read as one. -/
example :
    processLine true (ascii "rcv 8001 03 *6F") =
        some (true, some (.frame { arbitrationId := 0x8001, data := [0x03] })) ∧
      processLine true (ascii "rcv 8001 03 * F") =
        some (true, some (.frame { arbitrationId := 0x8001, data := [0x03],
                                   fdcanFrame := .kForceOn })) := by
  decide +kernel

/-- A digit of the data is damaged between two reports that are not. -/
def damagedRun : List PortEvent :=
  [.arrive (ascii "OK *BD\r\nrcv 8001 01100a B *15\r\n"), .read 20, .arrive (ascii "OK *BD\r\n"),
    .read 64, .read 64]

theorem damage_harmless_digit :
    ∃ event : Option Event, (∀ e ∈ event, e.plain = (Event.frame shortFrame).plain) ∧
      port.trace (.opened true) damagedRun = [.ok] ++ (event.toList ++ [.ok]) := by
  have htext : lineText true (Item.rcv shortReport).body =
      ascii "rcv 8001 01" ++ 0x30 :: ascii "00a B *15" := by decide +kernel
  exact @damage_harmless _ _ _ 0x31 [Item.crlf .ok] [Item.crlf .ok] (Item.crlf (.rcv shortReport))
    htext damagedRun (by decide +kernel) (by decide +kernel)

end Fdcanusb
