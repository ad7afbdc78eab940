import RobotFramework.Fdcanusb.Send

/-!
# `mjbots/moteus/moteus_transport.h`: the wait for replies

When frames have been sent, `TimeoutTransport::CHILD_CheckReplies` reads what the adapter says until
there is an `OK` for every frame and a reply of every device that was asked for one, or until its
time is over. That it has all of them is that **what it has read answers what was sent**
(`complete_iff`); and if the answers arrive in time, **it returns with them**, however they are
spread over the reads (`answered_in_time`).
-/

namespace Fdcanusb

open Reactive

/-! ## What is expected -/

/-- `TimeoutTransport::Options`, the times in nanoseconds. -/
structure Options where
  disableBrs : Bool := false
  minOkWaitNs : Nat := 2000000
  minRcvWaitNs : Nat := 50000000
  rxExtraWaitNs : Nat := 50000000
  finalWaitNs : Nat := 50000
  maxPipeline : Int := -1

/-- A frame that goes out, with what `CHILD_Cycle` looks at in it. -/
structure Sent where
  frame : Frame
  destination : Nat
  replyRequired : Bool
deriving DecidableEq

def Sent.asks (d : Nat) (sent : Sent) : Bool := sent.replyRequired && sent.destination == d

/-- One more reply of a device, for which `expected_reply_count_` may have to grow. -/
def expectOne (counts : List Nat) (sent : Sent) : List Nat :=
  if sent.replyRequired then
    (counts ++ List.replicate (sent.destination + 1 - counts.length) 0).modify sent.destination
      (· + 1)
  else counts

/-- `expected_reply_count_` when some frames have been sent, from what it was before. -/
def expect (counts : List Nat) (group : List Sent) : List Nat :=
  group.foldl expectOne (counts.map fun _ => 0)

inductive ReadDelay where
  | kWait
  | kFlush
deriving DecidableEq

/-- A call of `CHILD_CheckReplies` under way. -/
structure Check where
  readDelay : ReadDelay
  expectedOkCount : Nat
  expectedReplyCount : Option (List Nat)
  replies : Option (List Frame)
  okCount : Nat := 0
  endTime : Int

namespace Check

/-- `any_reply_checker` -/
def anyReply (expectedReplyCount : Option (List Nat)) : Bool :=
  match expectedReplyCount with
  | none => false
  | some counts => counts.any (· ≠ 0)

def firstWait (options : Options) (expectedOkCount : Nat)
    (expectedReplyCount : Option (List Nat)) : Nat :=
  max (if expectedOkCount ≠ 0 then options.minOkWaitNs else 0)
    (if anyReply expectedReplyCount then options.minRcvWaitNs else 0)

/-- The call, at some time. -/
def start (options : Options) (replies : Option (List Frame)) (readDelay : ReadDelay)
    (expectedOkCount : Nat) (expectedReplyCount : Option (List Nat)) (start : Int) : Check where
  readDelay
  expectedOkCount
  expectedReplyCount
  replies
  endTime :=
    match readDelay with
    | .kWait => start + firstWait options expectedOkCount expectedReplyCount
    | .kFlush => start + options.finalWaitNs

/-- What `CHILD_ProcessLine` makes of the counts and the replies. -/
def take (c : Check) : Event → Check
  | .ok => { c with okCount := c.okCount + 1 }
  | .frame frame =>
    { c with
      expectedReplyCount :=
        c.expectedReplyCount.map fun counts => counts.modify frame.source (· - 1)
      replies := c.replies.map (· ++ [frame]) }

/-- What is counted as received. A flush counts no frames. -/
def counted (c : Check) : Event → Bool
  | .ok => true
  | .frame _ => c.replies.isSome

def Complete (c : Check) : Prop :=
  c.readDelay ≠ .kFlush ∧ ¬ anyReply c.expectedReplyCount ∧ c.expectedOkCount ≤ c.okCount

instance (c : Check) : Decidable c.Complete := by unfold Complete; infer_instance

end Check

/-! ## The loop -/

structure Waiting where
  port : Port
  check : Option Check

/-- Bytes come in; or `ppoll` returns, at some time if there is nothing, and what there is has been
read, as far as up to so many bytes, by some time. -/
inductive WaitEvent where
  | arrive (bytes : Bytes)
  | poll (size : Nat) (now : Int)

/-- The loop of `CHILD_CheckReplies`, and the calls that return. -/
def waiting (options : Options) : Machine Waiting WaitEvent Check
  | s, .arrive bytes => ({ s with port := (port s.port (.arrive bytes)).1 }, [])
  | s, .poll size now =>
    match s.check with
    | none => (s, [])
    | some check =>
      if s.port.fifo = [] then
        if check.endTime ≤ now then ({ s with check := none }, [check]) else (s, [])
      else
        let (port, events) := port s.port (.read size)
        let check := events.foldl Check.take check
        if port.reader = none then ({ port, check := none }, [])
        else if check.Complete then ({ port, check := none }, [check])
        else if events.any check.counted then
          ({ port, check := some { check with endTime := now + options.rxExtraWaitNs } }, [])
        else ({ port, check := some check }, [])

/-! ## Complete -/

def Event.isOk : Event → Bool
  | .ok => true
  | .frame _ => false

def Event.isFrom (d : Nat) : Event → Bool
  | .ok => false
  | .frame f => f.source == d

def Event.frame? : Event → Option Frame
  | .ok => none
  | .frame f => some f

/-- An `OK` for every frame, and from every device as many replies as it was asked for. -/
def Answers (group : List Sent) (events : List Event) : Prop :=
  group.length ≤ events.countP Event.isOk ∧
    ∀ d, group.countP (Sent.asks d) ≤ events.countP (Event.isFrom d)

theorem getD_modify {counts : List Nat} {f : Nat → Nat} {i : Nat}
    (hf : f 0 = 0 ∨ i < counts.length) (d : Nat) :
    (counts.modify i f).getD d 0 = if i = d then f (counts.getD d 0) else counts.getD d 0 := by
  rw [List.getD_eq_getElem?_getD, List.getD_eq_getElem?_getD, List.getElem?_modify]
  by_cases hid : i = d
  · subst hid
    cases hget : counts[i]? with
    | some n => simp
    | none =>
      have hlength := List.getElem?_eq_none_iff.mp hget
      rcases hf with hf | hf
      · simp [hf]
      · omega
  · simp [hid]

theorem getD_expectOne (counts : List Nat) (sent : Sent) (d : Nat) :
    (expectOne counts sent).getD d 0 =
      counts.getD d 0 + if Sent.asks d sent = true then 1 else 0 := by
  rw [expectOne, Sent.asks]
  cases sent.replyRequired with
  | false => simp
  | true =>
    have hpad : (counts ++ List.replicate (sent.destination + 1 - counts.length) 0).getD d 0 =
        counts.getD d 0 := by
      rw [List.getD_eq_getElem?_getD, List.getD_eq_getElem?_getD, List.getElem?_append]
      split
      · rfl
      · rename_i h
        rw [List.getElem?_eq_none (Nat.le_of_not_lt h), List.getElem?_replicate]
        split
        · rfl
        · rfl
    rw [if_pos rfl, getD_modify, hpad]
    · by_cases hd : sent.destination = d
      · simp [hd]
      · simp [hd]
    · right
      rw [List.length_append, List.length_replicate]
      omega

/-- How many replies of a device are expected. -/
theorem getD_expect (counts : List Nat) (group : List Sent) (d : Nat) :
    (expect counts group).getD d 0 = group.countP (Sent.asks d) := by
  have hfold : ∀ counts : List Nat, (group.foldl expectOne counts).getD d 0 =
      counts.getD d 0 + group.countP (Sent.asks d) := by
    induction group with
    | nil => intro counts; rfl
    | cons sent group ih =>
      intro counts
      rw [List.foldl_cons, ih, getD_expectOne, List.countP_cons]
      omega
  have hzero : (counts.map fun _ => 0).getD d 0 = 0 := by
    rw [List.getD_eq_getElem?_getD, List.getElem?_map]
    cases counts[d]? with
    | none => rfl
    | some n => rfl
  rw [expect, hfold, hzero, Nat.zero_add]

/-- What a report takes off the counts. -/
def Event.answer (counts : List Nat) : Event → List Nat
  | .ok => counts
  | .frame f => counts.modify f.source (· - 1)

theorem getD_answers (counts : List Nat) (events : List Event) (d : Nat) :
    (events.foldl Event.answer counts).getD d 0 =
      counts.getD d 0 - events.countP (Event.isFrom d) := by
  induction events generalizing counts with
  | nil => rfl
  | cons event events ih =>
    rw [List.foldl_cons, ih, List.countP_cons]
    cases event with
    | ok => rfl
    | frame f =>
      rw [Event.answer, getD_modify (.inl rfl), Event.isFrom]
      by_cases hd : f.source = d
      · simp only [hd, if_true, beq_self_eq_true]
        omega
      · simp [hd]

/-- A call, when it has taken some reports. -/
theorem foldl_take (c : Check) (events : List Event) :
    events.foldl Check.take c =
      { c with
        okCount := c.okCount + events.countP Event.isOk
        expectedReplyCount := c.expectedReplyCount.map (events.foldl Event.answer)
        replies := c.replies.map (· ++ events.filterMap Event.frame?) } := by
  induction events generalizing c with
  | nil =>
    obtain ⟨_, _, counts, replies, _, _⟩ := c
    cases counts with
    | none => cases replies <;> simp
    | some counts => cases replies <;> simp
  | cons event events ih =>
    rw [List.foldl_cons, ih]
    cases event with
    | ok =>
      have hok : (Event.ok :: events).countP Event.isOk = events.countP Event.isOk + 1 :=
        List.countP_cons_of_pos rfl
      have hframes : (Event.ok :: events).filterMap Event.frame? =
          events.filterMap Event.frame? := List.filterMap_cons_none rfl
      rw [hok, hframes, Check.take, Nat.add_comm (List.countP _ _) 1, ← Nat.add_assoc]
      rfl
    | frame f =>
      have hok : (Event.frame f :: events).countP Event.isOk = events.countP Event.isOk :=
        List.countP_cons_of_neg Bool.false_ne_true
      have hframes : (Event.frame f :: events).filterMap Event.frame? =
          f :: events.filterMap Event.frame? := List.filterMap_cons_some rfl
      rw [hok, hframes, Check.take, Option.map_map, Option.map_map]
      simp only [Function.comp_def, List.append_assoc, List.singleton_append]
      rfl

theorem anyReply_iff (counts : List Nat) :
    Check.anyReply (some counts) = true ↔ ∃ d, counts.getD d 0 ≠ 0 := by
  rw [Check.anyReply, List.any_eq_true]
  constructor
  · rintro ⟨n, hn, hne⟩
    obtain ⟨d, hd⟩ := List.mem_iff_getElem?.mp hn
    refine ⟨d, ?_⟩
    rw [List.getD_eq_getElem?_getD, hd]
    simpa using hne
  · rintro ⟨d, hd⟩
    rw [List.getD_eq_getElem?_getD] at hd
    cases hget : counts[d]? with
    | none => simp [hget] at hd
    | some n =>
      refine ⟨n, List.mem_of_getElem? hget, ?_⟩
      simpa [hget] using hd

/-- **A call has all it waits for exactly when what it has read answers what was sent.** -/
theorem complete_iff (options : Options) (counts : List Nat) (group : List Sent) (start : Int)
    (events : List Event) :
    (events.foldl Check.take (Check.start options (some []) .kWait group.length
      (some (expect counts group)) start)).Complete ↔ Answers group events := by
  rw [foldl_take, Check.Complete, Check.start, Option.map_some, anyReply_iff, Answers]
  simp only [getD_answers, getD_expect]
  constructor
  · rintro ⟨-, hreplies, hok⟩
    refine ⟨by omega, ?_⟩
    intro d
    by_contra hlt
    exact hreplies ⟨d, by omega⟩
  · rintro ⟨hok, hreplies⟩
    refine ⟨by decide, ?_, by omega⟩
    rintro ⟨d, hne⟩
    have hd := hreplies d
    omega

/-! ## A run -/

def WaitEvent.arriving : WaitEvent → Bytes
  | .arrive bytes => bytes
  | .poll _ _ => []

/-- All that has come in. -/
def arrived (es : List WaitEvent) : Bytes := es.flatMap WaitEvent.arriving

theorem arrived_snoc (es : List WaitEvent) (e : WaitEvent) :
    arrived (es ++ [e]) = arrived es ++ e.arriving := by
  simp [arrived]

theorem foldl_take_endTime (c : Check) (endTime : Int) (events : List Event) :
    events.foldl Check.take { c with endTime } = { events.foldl Check.take c with endTime } := by
  rw [foldl_take, foldl_take]

/-- The reader is not gone where nothing but reports comes in. -/
theorem reader_isSome {checksums checksumActive : Bool}
    (hactive : checksumActive = true → checksums = true) {lines : List Line}
    {es : List PortEvent} (harrived : arrivals es <+: stream checksums lines) :
    (port.after (.opened checksumActive) es).reader ≠ none := by
  have hreadable := readable_of_said (short_lines checksums lines) (said_lines hactive lines)
  obtain ⟨_, _, _, -, -, hreader, -⟩ := port_lines es (hreadable.initial harrived)
  rw [hreader]
  exact Option.some_ne_none _

/-- What a poll does that finds something to be read. -/
theorem waiting_poll (options : Options) {p : Port} (hfifo : p.fifo ≠ []) {size : Nat}
    (hreader : (port p (.read size)).1.reader ≠ none) (check : Check) (now : Int) :
    waiting options { port := p, check := some check } (.poll size now) =
      if ((port p (.read size)).2.foldl Check.take check).Complete then
        ({ port := (port p (.read size)).1, check := none },
          [(port p (.read size)).2.foldl Check.take check])
      else if (port p (.read size)).2.any
          ((port p (.read size)).2.foldl Check.take check).counted then
        ({ port := (port p (.read size)).1
           check := some { (port p (.read size)).2.foldl Check.take check with
                           endTime := now + options.rxExtraWaitNs } }, [])
      else
        ({ port := (port p (.read size)).1
           check := some ((port p (.read size)).2.foldl Check.take check) }, []) := by
  rw [waiting]
  simp only
  rw [if_neg hfifo, if_neg hreader]

/-- One that finds nothing waits on, unless its time is over. -/
theorem waiting_idle (options : Options) {p : Port} (hfifo : p.fifo = []) {check : Check}
    {now : Int} (hnow : now < check.endTime) (size : Nat) :
    waiting options { port := p, check := some check } (.poll size now) =
      ({ port := p, check := some check }, []) := by
  rw [waiting]
  simp only
  rw [if_pos hfifo, if_neg (Int.not_le.mpr hnow)]

/-- **A call that is not late has not returned, or it has all it waits for.** What it has counted is
what has been read. -/
theorem waiting_run (options : Options) {checksums checksumActive : Bool}
    (hactive : checksumActive = true → checksums = true) {lines : List Line} {c : Check}
    {deadline : Int} (hc : deadline ≤ c.endTime) {es : List WaitEvent}
    (harrived : arrived es <+: stream checksums lines)
    (hintime : ∀ size now, .poll size now ∈ es →
      now < deadline ∧ deadline ≤ now + options.rxExtraWaitNs) :
    let began : Waiting := { port := .opened checksumActive, check := some c }
    ∃ reads, arrivals reads = arrived es ∧
      ((waiting options).after began es).port = port.after (.opened checksumActive) reads ∧
      (((waiting options).trace began es = [] ∧ ∃ endTime, deadline ≤ endTime ∧
          ((waiting options).after began es).check = some
            { (port.trace (.opened checksumActive) reads).foldl Check.take c with endTime } ∧
          (port.trace (.opened checksumActive) reads = [] ∨
            ¬ ((port.trace (.opened checksumActive) reads).foldl Check.take c).Complete)) ∨
        (((waiting options).after began es).check = none ∧ ∃ taken endTime,
          taken <+: lines.map (·.item.event) ∧ (taken.foldl Check.take c).Complete ∧
          (waiting options).trace began es = [{ taken.foldl Check.take c with endTime }])) := by
  intro began
  induction es using List.reverseRecOn with
  | nil => exact ⟨[], rfl, rfl, .inl ⟨rfl, c.endTime, hc, rfl, .inl rfl⟩⟩
  | append_singleton es e ih =>
    rw [arrived_snoc] at harrived ⊢
    obtain ⟨reads, hreads, hport, hcheck⟩ := ih ((List.prefix_append _ _).trans harrived)
      fun size now h => hintime size now (List.mem_append_left _ h)
    rw [Machine.after_snoc, Machine.trace_snoc]
    generalize (waiting options).after began es = s at hport hcheck
    generalize (waiting options).trace began es = returned at hcheck
    obtain ⟨p, check⟩ := s
    simp only at hport hcheck
    subst hport
    cases e with
    | arrive bytes =>
      refine ⟨reads ++ [.arrive bytes], ?_, ?_, ?_⟩
      · rw [arrivals_snoc, hreads]
        rfl
      · rw [Machine.after_snoc]
        rfl
      · rw [Machine.trace_snoc]
        simpa [waiting, port] using hcheck
    | poll size now =>
      obtain ⟨hnow, hextra⟩ := hintime size now (List.mem_append_right _ List.mem_cons_self)
      rw [WaitEvent.arriving, List.append_nil] at harrived ⊢
      rcases hcheck with ⟨rfl, endTime, hend, rfl, hopen⟩ | ⟨rfl, hreturned⟩
      · by_cases hfifo : (port.after (.opened checksumActive) reads).fifo = []
        · rw [waiting_idle options hfifo (Int.lt_of_lt_of_le hnow hend)]
          exact ⟨reads, hreads, rfl, .inl ⟨List.append_nil _, endTime, hend, rfl, hopen⟩⟩
        · have harrivals : arrivals (reads ++ [.read size]) = arrived es := by
            rw [arrivals_snoc, hreads]
            exact List.append_nil _
          have hreader := reader_isSome hactive (harrivals ▸ harrived)
          have htaken := (reports_received hactive lines (harrivals ▸ harrived)).1
          refine ⟨reads ++ [.read size], harrivals, ?_⟩
          rw [Machine.after_snoc] at hreader ⊢
          rw [Machine.trace_snoc] at htaken ⊢
          rw [waiting_poll options hfifo hreader, foldl_take_endTime, ← List.foldl_append]
          generalize port.trace _ reads ++ _ = taken at htaken ⊢
          generalize (port _ (.read size)).2.any _ = counted
          split_ifs with hcomplete hcounted
          · exact ⟨rfl, .inr ⟨rfl, taken, endTime, htaken, hcomplete, rfl⟩⟩
          · exact ⟨rfl, .inl ⟨rfl, _, hextra, rfl, .inr hcomplete⟩⟩
          · exact ⟨rfl, .inl ⟨rfl, endTime, hend, rfl, .inr hcomplete⟩⟩
      · refine ⟨reads, hreads, rfl, .inr ⟨rfl, ?_⟩⟩
        simpa [waiting] using hreturned

/-- **Answers that arrive in time are returned.** While the call has not returned, there is something
left to be read; and when it returns, it has an `OK` for every frame and every reply that was asked
for. -/
theorem answered_in_time (options : Options) {checksums checksumActive : Bool}
    (hactive : checksumActive = true → checksums = true) (counts : List Nat) {group : List Sent}
    (hgroup : group ≠ []) (start : Int) {lines : List Line}
    (hanswers : Answers group (lines.map (·.item.event))) {es : List WaitEvent}
    (harrived : arrived es = stream checksums lines)
    (hintime : ∀ size now, .poll size now ∈ es → start ≤ now ∧
      now < start + min (Check.firstWait options group.length (some (expect counts group)))
        options.rxExtraWaitNs) :
    let check := Check.start options (some []) .kWait group.length (some (expect counts group)) start
    let began : Waiting := { port := .opened checksumActive, check := some check }
    ((waiting options).trace began es = [] ∧
        ((waiting options).after began es).port.fifo ≠ []) ∨
      ∃ taken endTime, taken <+: lines.map (·.item.event) ∧ Answers group taken ∧
        (waiting options).trace began es = [{ taken.foldl Check.take check with endTime }] := by
  intro check began
  have hdeadline : start + min (Check.firstWait options group.length (some (expect counts group)))
      options.rxExtraWaitNs ≤ check.endTime := by
    have hend : check.endTime =
      start + Check.firstWait options group.length (some (expect counts group)) := rfl
    rw [hend]
    omega
  obtain ⟨reads, hreads, hport, ⟨hreturned, endTime, -, -, hopen⟩ |
      ⟨-, taken, endTime, htaken, hcomplete, hreturned⟩⟩ :=
    waiting_run options hactive hdeadline (by rw [harrived]) fun size now hpoll => by
      have := hintime size now hpoll
      omega
  · left
    refine ⟨hreturned, ?_⟩
    intro hread
    rw [hport] at hread
    have hall := (reports_received hactive lines (by rw [hreads, harrived])).2
      (hreads.trans harrived) hread
    rw [hall] at hopen
    rcases hopen with hnone | hopen
    · -- There is no report that would be an answer.
      rw [hnone] at hanswers
      exact hgroup (List.length_eq_zero_iff.mp (Nat.le_zero.mp hanswers.1))
    · exact hopen ((complete_iff options counts group start _).mpr hanswers)
  · right
    exact ⟨taken, endTime, htaken, (complete_iff options counts group start _).mp hcomplete,
      hreturned⟩

end Fdcanusb
