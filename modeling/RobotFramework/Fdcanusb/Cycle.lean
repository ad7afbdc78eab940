import RobotFramework.Fdcanusb.Replies

/-!
# `mjbots/moteus/moteus_transport.h`: cycles

`TimeoutTransport::CHILD_Cycle` first reads and drops what an earlier cycle has left over, then sends
its frames, no more of them at once than `max_pipeline` allows, and waits for the answers.

**A cycle that is answered in time returns what was reported to it, and nothing else**: what the
adapter had said before the frames went out is not among it (`cycle_answered`).
-/

namespace Fdcanusb

open Reactive

/-! ## The loop -/

/-- `Cycle` is called, with a vector for the replies or without; or the wait goes on. -/
inductive CycleEvent where
  | cycle (frames : List Sent) (replies : Bool) (now : Int)
  | wait (event : WaitEvent)

/-- A line goes to the adapter; or the cycle has come to its end. -/
inductive CycleOutput where
  | sent (line : Bytes)
  | completed (replies : Option (List Frame))
deriving DecidableEq

/-- `frames` are those that have not been sent yet. -/
structure Cycling where
  port : Port
  check : Option Check := none
  frames : List Sent := []
  advance : Nat := 0
  replies : Option (List Frame) := none
  expectedReplyCount : List Nat := []

def Port.checksumActive (p : Port) : Bool := p.reader.any (·.checksumActive)

namespace Cycling

/-- The next turn of the loop of `CHILD_Cycle`, or what stands behind it. -/
def turn (options : Options) (s : Cycling) (now : Int) : Cycling × List CycleOutput :=
  if s.frames = [] then ({ s with check := none }, [.completed s.replies])
  else
    let group := s.frames.take s.advance
    let counts := expect s.expectedReplyCount group
    ({ s with
        check := some (Check.start options s.replies .kWait group.length (some counts) now)
        frames := s.frames.drop s.advance
        expectedReplyCount := counts },
      group.map fun sent =>
        .sent (sendCanFdFrame options.disableBrs s.port.checksumActive sent.frame))

/-- The replies are those of the last wait; a flush has none. -/
def returned (s : Cycling) (check : Check) : Cycling :=
  { s with replies := if check.readDelay = .kFlush then s.replies else check.replies }

def waiting (s : Cycling) : Waiting := { port := s.port, check := s.check }

/-- The same cycle, as far as the wait has got. -/
def waited (s : Cycling) (w : Waiting) : Cycling := { s with port := w.port, check := w.check }

end Cycling

/-- The cycles of a transport, one behind the other. -/
def cycling (options : Options) : Machine Cycling CycleEvent CycleOutput
  | s, .cycle frames replies now =>
    if s.check = none ∧ s.port.reader ≠ none then
      ({ s with
          check := some (Check.start options none .kFlush 0 none now)
          frames
          advance :=
            if options.maxPipeline < 0 then frames.length else options.maxPipeline.toNat
          replies := if replies then some [] else none }, [])
    else (s, [])
  | s, .wait event =>
    let (w, checks) := waiting options s.waiting event
    match checks, event with
    | check :: _, .poll _ now => ((s.waited w).returned check).turn options now
    | _, _ => (s.waited w, [])

/-! ## A wait in a cycle -/

section

variable (options : Options) {s : Cycling}

theorem cycling_wait {e : WaitEvent} (h : (waiting options s.waiting e).2 = []) :
    cycling options s (.wait e) = (s.waited (waiting options s.waiting e).1, []) := by
  rw [cycling]
  simp only [h]

theorem cycling_returned {size : Nat} {now : Int} {check : Check} {checks : List Check}
    (h : (waiting options s.waiting (.poll size now)).2 = check :: checks) :
    cycling options s (.wait (.poll size now)) =
      ((s.waited (waiting options s.waiting (.poll size now)).1).returned check).turn options
        now := by
  rw [cycling]
  simp only [h]

theorem Cycling.turn_ne_nil (hframes : s.frames ≠ []) (hadvance : 0 < s.advance) (now : Int) :
    (s.turn options now).2 ≠ [] := by
  have htake : s.frames.take s.advance ≠ [] := by
    rw [Ne, List.take_eq_nil_iff, not_or]
    exact ⟨hadvance.ne', hframes⟩
  rw [turn, if_neg hframes]
  intro hnil
  exact htake (List.map_eq_nil_iff.mp hnil)

theorem trace_idle (p : Port) (es : List WaitEvent) :
    (waiting options).trace { port := p, check := none } es = [] := by
  induction es generalizing p with
  | nil => rfl
  | cons e es ih =>
    cases e with
    | arrive bytes => exact ih _
    | poll size now => exact ih p

variable {es : List WaitEvent}

/-- While the wait has not returned, the cycle does nothing else. -/
theorem cycling_quiet (h : (waiting options).trace s.waiting es = []) :
    (cycling options).trace s (es.map .wait) = [] ∧
      (cycling options).after s (es.map .wait) =
        s.waited ((waiting options).after s.waiting es) := by
  induction es generalizing s with
  | nil => exact ⟨rfl, rfl⟩
  | cons e es ih =>
    rw [Machine.trace_cons, List.append_eq_nil_iff] at h
    obtain ⟨htrace, hafter⟩ := ih (s := s.waited (waiting options s.waiting e).1) h.2
    rw [List.map_cons, Machine.trace_cons, Machine.after_cons, cycling_wait options h.1]
    exact ⟨htrace, hafter⟩

/-- With frames to be sent, a wait that returns is seen. -/
theorem waiting_quiet (hframes : s.frames ≠ []) (hadvance : 0 < s.advance)
    (h : (cycling options).trace s (es.map .wait) = []) :
    (waiting options).trace s.waiting es = [] := by
  induction es generalizing s with
  | nil => rfl
  | cons e es ih =>
    rw [List.map_cons, Machine.trace_cons, List.append_eq_nil_iff] at h
    rw [Machine.trace_cons, List.append_eq_nil_iff]
    cases hchecks : (waiting options s.waiting e).2 with
    | nil =>
      rw [cycling_wait options hchecks] at h
      exact ⟨rfl, ih (s := s.waited (waiting options s.waiting e).1) hframes hadvance h.2⟩
    | cons check checks =>
      cases e with
      | arrive bytes => cases hchecks
      | poll size now =>
        rw [cycling_returned options hchecks] at h
        exact absurd h.1 (Cycling.turn_ne_nil options (s := (s.waited _).returned check) hframes
          hadvance now)

/-- When the last wait returns, so does the cycle. -/
theorem cycling_returns (hframes : s.frames = []) {check : Check}
    (hwait : check.readDelay ≠ .kFlush) (h : (waiting options).trace s.waiting es = [check]) :
    (cycling options).trace s (es.map .wait) = [.completed check.replies] := by
  induction es generalizing s with
  | nil => cases h
  | cons e es ih =>
    rw [Machine.trace_cons] at h
    rw [List.map_cons, Machine.trace_cons]
    cases hchecks : (waiting options s.waiting e).2 with
    | nil =>
      rw [hchecks, List.nil_append] at h
      rw [cycling_wait options hchecks]
      exact ih (s := s.waited (waiting options s.waiting e).1) hframes h
    | cons check' checks =>
      rw [hchecks, List.cons_append] at h
      obtain ⟨rfl, -⟩ := List.cons.inj h
      cases e with
      | arrive bytes => cases hchecks
      | poll size now =>
        rw [cycling_returned options hchecks, Cycling.turn, if_pos (by exact hframes),
          Cycling.returned, if_neg hwait, (cycling_quiet options (trace_idle options _ es)).1]
        rfl

end

/-! ## The flush -/

theorem rest_stream (checksums : Bool) (lines : List Line) :
    (Lines.complete isLineEnd (stream checksums lines)).2 = [] := by
  cases lines using List.reverseRecOn with
  | nil => rfl
  | append_singleton lines line =>
    obtain ⟨ends, e, hends⟩ : ∃ ends e, line.ends = ends ++ [e] :=
      ⟨_, _, (List.dropLast_append_getLast line.ends_ok.1).symm⟩
    have hsplit : stream checksums (lines ++ [line]) =
        stream checksums lines ++ lineText checksums line.item.body ++ ends ++ [e] := by
      simp [stream, hends]
    rw [hsplit]
    apply Lines.complete_snoc_end
    apply line.ends_ok.2
    rw [hends]
    exact List.mem_append_right _ List.mem_cons_self

/-- When all lines have been read, the port is as it was when it was opened. -/
theorem port_read_out {checksums checksumActive : Bool}
    (hactive : checksumActive = true → checksums = true) {lines : List Line}
    {reads : List PortEvent} (harrived : arrivals reads = stream checksums lines)
    (hread : (port.after (.opened checksumActive) reads).fifo = []) :
    port.after (.opened checksumActive) reads = .opened checksumActive := by
  have hreadable := readable_of_said (short_lines checksums lines) (said_lines hactive lines)
  obtain ⟨done, active, events, hsplit, hdone, hreader, -⟩ :=
    port_lines reads (harrived ▸ hreadable)
  rw [hread, List.append_nil, harrived] at hsplit
  rw [← hsplit, ← said, said_lines hactive lines] at hdone
  rw [← hsplit, rest_stream, ← (Prod.mk.inj (Option.some.inj hdone)).1] at hreader
  generalize port.after (.opened checksumActive) reads = p at hread hreader
  obtain ⟨reader, fifo⟩ := p
  simp only at hread hreader
  rw [hread, hreader]
  rfl

/-- A flush does not return as long as there is something to be read. -/
theorem flush_poll (options : Options) {p : Port} (hfifo : p.fifo ≠ []) {size : Nat}
    (hreader : (port p (.read size)).1.reader ≠ none) {check : Check}
    (hdelay : check.readDelay = .kFlush) (now : Int) :
    ∃ check', check'.readDelay = .kFlush ∧
      waiting options { port := p, check := some check } (.poll size now) =
        ({ port := (port p (.read size)).1, check := some check' }, []) := by
  have hkept : ((port p (.read size)).2.foldl Check.take check).readDelay = .kFlush := by
    rw [foldl_take]
    exact hdelay
  rw [waiting_poll options hfifo hreader, if_neg fun hcomplete => hcomplete.1 hkept]
  split
  · exact ⟨_, by exact hkept, rfl⟩
  · exact ⟨_, hkept, rfl⟩

/-- While a flush goes on, it only reads. -/
theorem flush_run (options : Options) {checksums checksumActive : Bool}
    (hactive : checksumActive = true → checksums = true) {stale : List Line} {c : Check}
    (hflush : c.readDelay = .kFlush) (before : List PortEvent) {es : List WaitEvent}
    (harrived : arrivals before ++ arrived es <+: stream checksums stale) :
    let began : Waiting := { port := port.after (.opened checksumActive) before, check := some c }
    (waiting options).trace began es = [] →
      ∃ reads check, arrivals reads = arrivals before ++ arrived es ∧ check.readDelay = .kFlush ∧
        (waiting options).after began es =
          { port := port.after (.opened checksumActive) reads, check := some check } := by
  intro began
  induction es using List.reverseRecOn with
  | nil =>
    intro _
    exact ⟨before, c, (List.append_nil _).symm, hflush, rfl⟩
  | append_singleton es e ih =>
    intro hquiet
    rw [arrived_snoc, ← List.append_assoc] at harrived ⊢
    rw [Machine.trace_snoc, List.append_eq_nil_iff] at hquiet
    obtain ⟨hquiet, hstep⟩ := hquiet
    obtain ⟨reads, check, hreads, hdelay, hafter⟩ :=
      ih ((List.prefix_append _ _).trans harrived) hquiet
    rw [Machine.after_snoc]
    rw [hafter] at hstep ⊢
    cases e with
    | arrive bytes =>
      refine ⟨reads ++ [.arrive bytes], check, ?_, hdelay, ?_⟩
      · rw [arrivals_snoc, hreads]
        rfl
      · rw [Machine.after_snoc]
        rfl
    | poll size now =>
      rw [WaitEvent.arriving, List.append_nil] at harrived ⊢
      by_cases hfifo : (port.after (.opened checksumActive) reads).fifo = []
      · refine ⟨reads, check, hreads, hdelay, ?_⟩
        by_cases hnow : check.endTime ≤ now
        · rw [waiting] at hstep
          simp only [if_pos hfifo, if_pos hnow] at hstep
          cases hstep
        · rw [waiting_idle options hfifo (Int.not_le.mp hnow)]
      · have harrivals : arrivals (reads ++ [.read size]) = arrivals before ++ arrived es := by
          rw [arrivals_snoc, hreads]
          exact List.append_nil _
        have hreader := reader_isSome hactive (harrivals ▸ harrived)
        rw [Machine.after_snoc] at hreader
        obtain ⟨check', hdelay', hpoll⟩ := flush_poll options hfifo hreader hdelay now
        refine ⟨reads ++ [.read size], check', harrivals, hdelay', ?_⟩
        rw [hpoll, Machine.after_snoc]

/-- **A flush that has read whole lines leaves nothing of them**: it returns when there is nothing to
be read, and then the port is as it was when it was opened. -/
theorem flush_end (options : Options) {checksums checksumActive : Bool}
    (hactive : checksumActive = true → checksums = true) {stale : List Line} {c : Check}
    (hflush : c.readDelay = .kFlush) (before : List PortEvent) {es : List WaitEvent}
    (harrived : arrivals before ++ arrived es = stream checksums stale) {size : Nat} {now : Int} :
    let began : Waiting := { port := port.after (.opened checksumActive) before, check := some c }
    (waiting options).trace began es = [] →
    (waiting options ((waiting options).after began es) (.poll size now)).2 ≠ [] →
      ∃ check, check.readDelay = .kFlush ∧
        waiting options ((waiting options).after began es) (.poll size now) =
          ({ port := .opened checksumActive, check := none }, [check]) := by
  intro began hquiet hreturns
  obtain ⟨reads, check, hreads, hdelay, hafter⟩ :=
    flush_run options hactive hflush before (by rw [harrived]) hquiet
  rw [harrived] at hreads
  rw [hafter] at hreturns ⊢
  have hread : (port.after (.opened checksumActive) reads).fifo = [] := by
    by_contra hfifo
    have harrivals : arrivals (reads ++ [.read size]) = stream checksums stale := by
      rw [arrivals_snoc, hreads]
      exact List.append_nil _
    have hreader := @reader_isSome checksums checksumActive hactive stale _ (by rw [harrivals])
    rw [Machine.after_snoc] at hreader
    obtain ⟨check', -, hpoll⟩ := flush_poll options hfifo hreader hdelay now
    rw [hpoll] at hreturns
    exact hreturns rfl
  rw [port_read_out hactive hreads hread] at hreturns ⊢
  refine ⟨check, hdelay, ?_⟩
  by_cases hnow : check.endTime ≤ now
  · rw [waiting]
    simp only [Port.opened, if_true, if_pos hnow]
  · rw [waiting_idle options rfl (Int.not_le.mp hnow)] at hreturns
    exact absurd rfl hreturns

/-! ## A whole cycle -/

namespace Cycling

/-- Between two cycles, with bytes that have not been read. -/
def idle (checksumActive : Bool) (counts : List Nat) (left : Bytes) : Cycling where
  port := { reader := some { checksumActive, lineBuffer := [] }, fifo := left }
  expectedReplyCount := counts

/-- A cycle has been called. -/
def flushing (options : Options) (idle : Cycling) (frames : List Sent) (now : Int) : Cycling :=
  { idle with
    check := some (Check.start options none .kFlush 0 none now)
    frames
    advance := frames.length
    replies := some [] }

/-- All frames of a cycle are out, and nothing has been said to them. -/
def answering (options : Options) (checksumActive : Bool) (counts : List Nat)
    (frames : List Sent) (start : Int) : Cycling where
  port := .opened checksumActive
  check := some (Check.start options (some []) .kWait frames.length
    (some (expect counts frames)) start)
  frames := []
  advance := frames.length
  replies := some []
  expectedReplyCount := expect counts frames

end Cycling

section

variable (options : Options) {checksums checksumActive : Bool} {counts : List Nat}
  {frames : List Sent} {stale : List Line} {left : Bytes} {flush : List WaitEvent}
  {now start : Int} {size : Nat}

theorem cycling_cycle (hpipeline : options.maxPipeline < 0) :
    cycling options (.idle checksumActive counts left) (.cycle frames true now) =
      (.flushing options (.idle checksumActive counts left) frames now, []) := by
  rw [cycling, if_pos ⟨rfl, Option.some_ne_none _⟩, if_pos hpipeline]
  rfl

/-- When the flush returns, the frames go out. -/
theorem flush_sends (hactive : checksumActive = true → checksums = true) (hframes : frames ≠ [])
    (hstale : left ++ arrived flush = stream checksums stale) :
    let began := Cycling.flushing options (.idle checksumActive counts left) frames now
    (cycling options).trace began (flush.map .wait) = [] →
    (cycling options).trace began (flush.map .wait ++ [.wait (.poll size start)]) ≠ [] →
      cycling options ((cycling options).after began (flush.map .wait))
          (.wait (.poll size start)) =
        (.answering options checksumActive counts frames start, frames.map fun frame =>
          .sent (sendCanFdFrame options.disableBrs checksumActive frame.frame)) := by
  intro began hquiet hsent
  have hwaits : (waiting options).trace began.waiting flush = [] :=
    waiting_quiet options (s := began) hframes (List.length_pos_of_ne_nil hframes) hquiet
  rw [Machine.trace_snoc, hquiet, List.nil_append] at hsent
  rw [(cycling_quiet options hwaits).2] at hsent ⊢
  have hleft : arrivals [.arrive left] ++ arrived flush = stream checksums stale := by
    rw [← hstale]
    simp [arrivals, PortEvent.arriving]
  obtain ⟨check, hdelay, hreturns⟩ := flush_end options hactive rfl [.arrive left] hleft hwaits
    fun hnone => hsent (congrArg Prod.snd (cycling_wait options
      (s := began.waited ((waiting options).after began.waiting flush)) hnone))
  have hturn := cycling_returned options
    (s := began.waited ((waiting options).after began.waiting flush)) (congrArg Prod.snd hreturns)
  have hready : (began.waited { port := .opened checksumActive, check := none }).returned check =
      { port := .opened checksumActive
        frames
        advance := frames.length
        replies := some []
        expectedReplyCount := counts } := by
    rw [Cycling.returned, if_pos hdelay]
    rfl
  have hwaited := congrArg (fun r => (began.waited r.1).returned check) hreturns
  refine hturn.trans ((congrArg (Cycling.turn options · start) (hwaited.trans hready)).trans ?_)
  rw [Cycling.turn, if_neg hframes]
  simp only [List.take_length, List.drop_length]
  rfl

/-- **A cycle that is answered in time returns what was reported to it**, and nothing of what the
adapter had said before the frames went out. -/
theorem cycle_answered (hpipeline : options.maxPipeline < 0)
    (hactive : checksumActive = true → checksums = true) (hframes : frames ≠ [])
    {lines : List Line} (hanswers : Answers frames (lines.map (·.item.event)))
    {es : List WaitEvent} (hstale : left ++ arrived flush = stream checksums stale)
    (harrived : arrived es = stream checksums lines) :
    let idle := Cycling.idle checksumActive counts left
    let flushing := .cycle frames true now :: flush.map CycleEvent.wait
    let run := flushing ++ .wait (.poll size start) :: es.map .wait
    let sent := frames.map fun frame =>
      .sent (sendCanFdFrame options.disableBrs checksumActive frame.frame)
    (cycling options).trace idle flushing = [] →
    (cycling options).trace idle (flushing ++ [.wait (.poll size start)]) ≠ [] →
    (∀ size now, .poll size now ∈ es → start ≤ now ∧
      now < start + min (Check.firstWait options frames.length (some (expect counts frames)))
        options.rxExtraWaitNs) →
    ((cycling options).trace idle run = sent ∧
        ((cycling options).after idle run).port.fifo ≠ []) ∨
      ∃ taken, taken <+: lines.map (·.item.event) ∧ Answers frames taken ∧
        (cycling options).trace idle run =
          sent ++ [.completed (some (taken.filterMap Event.frame?))] := by
  intro idle flushing run sent hquiet hsent hintime
  have hcalled := @cycling_cycle options checksumActive counts frames left now hpipeline
  rw [Machine.trace_cons, hcalled, List.nil_append] at hquiet
  rw [List.cons_append, Machine.trace_cons, hcalled, List.nil_append] at hsent
  have hsends := flush_sends options hactive hframes hstale hquiet hsent
  have hbegun : (cycling options).after idle flushing = (cycling options).after
      (.flushing options (.idle checksumActive counts left) frames now) (flush.map .wait) := by
    rw [Machine.after_cons, hcalled]
  have htrace : (cycling options).trace idle run = sent ++
      (cycling options).trace (.answering options checksumActive counts frames start)
        (es.map .wait) := by
    rw [Machine.trace_append, Machine.trace_cons, hcalled, hquiet, hbegun, Machine.trace_cons,
      hsends]
    rfl
  have hend : (cycling options).after idle run = (cycling options).after
      (.answering options checksumActive counts frames start) (es.map .wait) := by
    rw [Machine.after_append, Machine.after_cons, hbegun, hsends]
  rw [htrace, hend]
  rcases answered_in_time options hactive counts hframes start hanswers harrived hintime with
    ⟨hnone, hfifo⟩ | ⟨taken, endTime, htaken, hall, hone⟩
  · left
    obtain ⟨hcycling, hwaiting⟩ := cycling_quiet options
      (s := .answering options checksumActive counts frames start) hnone
    rw [hcycling, hwaiting, List.append_nil]
    exact ⟨rfl, hfifo⟩
  · right
    refine ⟨taken, htaken, hall, ?_⟩
    rw [cycling_returns options (s := .answering options checksumActive counts frames start) rfl _
      hone]
    · simp only [foldl_take]
      rfl
    · simp only [foldl_take]
      intro hdelay
      cases hdelay

end

/-- What a device with the id 1 replies, now and in an earlier cycle. -/
def modeReport : Report where
  address := ascii "100"
  digits := ascii "21000a"
  address_hex := ⟨by decide, by decide, List.all_eq_true.mp (by decide)⟩
  digits_hex := ⟨by decide, by decide, List.all_eq_true.mp (by decide)⟩

def staleReport : Report where
  address := ascii "100"
  digits := ascii "210005"
  address_hex := ⟨by decide, by decide, List.all_eq_true.mp (by decide)⟩
  digits_hex := ⟨by decide, by decide, List.all_eq_true.mp (by decide)⟩

def modeQuery : Sent where
  frame := { arbitrationId := 0x8001, data := [0x11, 0x00] }
  destination := 1
  replyRequired := true

/-- The answers are read in pieces. -/
def modeAnswers : List WaitEvent :=
  [.arrive (ascii "OK\r\nrcv 100 21"), .poll 64 160000, .arrive (ascii "000a\r\n"),
    .poll 64 260000]

theorem cycle_answered_mode :
    ∃ taken, taken <+: [Event.ok, .frame { arbitrationId := 0x100, data := [0x21, 0x00, 0x0a] }] ∧
      Answers [modeQuery] taken ∧
      (cycling {}).trace (.idle false [] (ascii "rcv 100 210005\r\n"))
        ([.cycle [modeQuery] true 0, .wait (.poll 64 10)] ++
          .wait (.poll 64 60000) :: modeAnswers.map .wait) =
        [.sent (ascii "can send 8001 1100\n"),
          .completed (some (taken.filterMap Event.frame?))] := by
  have hanswers : Answers [modeQuery]
      ([Item.crlf .ok, Item.crlf (.rcv modeReport)].map (·.item.event)) := by
    refine ⟨by decide +kernel, ?_⟩
    intro d
    by_cases hd : d = 1
    · subst hd
      decide +kernel
    · have hnone : Sent.asks d modeQuery = false := by
        simp [Sent.asks, modeQuery, Ne.symm hd]
      rw [List.countP_cons_of_neg (by rw [hnone]; decide)]
      exact Nat.zero_le _
  have hintime : ∀ (size : Nat) (now : Int), .poll size now ∈ modeAnswers → 60000 ≤ now ∧
      now < 60000 + (min (Check.firstWait {} [modeQuery].length (some (expect [] [modeQuery])))
        50000000 : Nat) := by
    intro size now hpoll
    simp only [modeAnswers, List.mem_cons, reduceCtorEq, WaitEvent.poll.injEq, List.not_mem_nil,
      false_or, or_false] at hpoll
    rcases hpoll with ⟨-, rfl⟩ | ⟨-, rfl⟩
    · decide
    · decide
  have hlines : sendCanFdFrame false false modeQuery.frame = ascii "can send 8001 1100\n" := by
    decide +kernel
  have hcycle := @cycle_answered {} false false [] [modeQuery] [Item.crlf (.rcv staleReport)]
    (ascii "rcv 100 210005\r\n") [.poll 64 10] 0 60000 64 (by decide) id (List.cons_ne_nil _ _)
    [Item.crlf .ok, Item.crlf (.rcv modeReport)] hanswers modeAnswers (by decide +kernel)
    (by decide +kernel) (by decide +kernel) (by decide +kernel) hintime
  rw [← hlines]
  exact hcycle.resolve_left fun h => h.2 (by decide +kernel)

end Fdcanusb
