import Mathlib.Logic.Function.Basic
import RobotFramework.Lib.Reactive

/-!
# `mjbots/pi3hat/pi3hat_moteus_transport.h`: the thread behind the transport

`Cycle` leaves what it was given to a thread of the transport, which carries it out (`CHILD_Cycle`),
and a callback tells the caller when it is done; `BlockingCycle` waits for that. Callers, the thread
of the transport and `Post` share `active_`, `cycle_data_` and `event_queue_`, and any of them may
come between two steps of another one. `transport` has one event for each stretch of code between
two points where that can be observed, and a run is any sequence of them.

Whatever the interleaving, a call of `BlockingCycle` that is let in is carried out once, with its own
frames, and returns what the hat answered to those (`cycle_protocol`); and once the thread of the
transport has taken eight more steps the caller has been notified (`blocked_notified`).
-/

namespace Pi3Hat

open Reactive

variable {ι α β γ : Type} [DecidableEq ι]

/-! ## The threads -/

/-- Where the thread of the transport is (`CHILD_Run`). -/
inductive Child (ι α γ : Type) where
  /-- In the wait for something to do. -/
  | waiting
  /-- Behind it, in front of `if (active_)`. -/
  | checkActive
  /-- In `CHILD_Cycle`, the frames having been copied. -/
  | transacting (sent : α)
  /-- `CHILD_Cycle` has returned. -/
  | transacted
  /-- In front of `completed_callback(0)`. -/
  | completing (owner : ι)
  /-- In front of the look into the event queue. -/
  | checkEvents
  /-- In front of a posted callback. -/
  | running (event : γ)
  /-- Returned. -/
  | ended

/-- A thread that may call `BlockingCycle`. Inside of it, `replies` is what has been stored in the
vector it passed, and `notified` the flag of its `BlockingCallback`. -/
inductive Caller (α β : Type) where
  | idle
  | blocked (frames : α) (replies : Option β) (notified : Bool)

structure TransportState (ι α β γ : Type) where
  active : Bool := false
  done : Bool := false
  /-- `cycle_data_`, as long as its callback has not been taken out: who it belongs to. -/
  cycleData : Option (ι × α) := none
  eventQueue : List γ := []
  child : Child ι α γ := .waiting
  callers : ι → Caller α β := fun _ => .idle

inductive TransportEvent (ι α β γ : Type) where
  /-- A thread calls `BlockingCycle` and gets the mutex in `Cycle`. -/
  | call (i : ι) (frames : α)
  /-- A thread in `Wait` looks at its flag. -/
  | wake (i : ι)
  | post (event : γ)
  /-- The destructor of the transport. -/
  | stop
  /-- The next step of the transport's thread. What the hat answers is used if it is asked. -/
  | child (answer : β)

inductive TransportOutput (ι α β γ : Type) where
  | accepted (i : ι) (frames : α)
  /-- `Cycle` throws. -/
  | refused (i : ι)
  /-- A transaction with the hat, whose replies go to a thread. -/
  | transaction (i : ι) (frames : α) (answer : β)
  | returned (i : ι) (replies : Option β)
  | ran (event : γ)

/-- The thread an output is about, refusals aside. -/
def TransportOutput.caller : TransportOutput ι α β γ → Option ι
  | .accepted i _ => some i
  | .refused _ => none
  | .transaction i _ _ => some i
  | .returned i _ => some i
  | .ran _ => none

/-- The replies are stored in the vector that a thread passed. -/
def Caller.store (answer : β) : Caller α β → Caller α β
  | .idle => .idle
  | .blocked frames _ notified => .blocked frames (some answer) notified

/-- The callback of a `BlockingCallback`. -/
def Caller.notify : Caller α β → Caller α β
  | .idle => .idle
  | .blocked frames replies _ => .blocked frames replies true

/-- One step of `CHILD_Run`. -/
def childStep (s : TransportState ι α β γ) (answer : β) :
    TransportState ι α β γ × List (TransportOutput ι α β γ) :=
  match s.child with
  | .waiting =>
    if s.done then ({ s with child := .ended }, [])
    else if s.active ∨ s.eventQueue ≠ [] then ({ s with child := .checkActive }, [])
    else (s, [])
  | .checkActive =>
    if s.active then
      match s.cycleData with
      | some (_, frames) => ({ s with child := .transacting frames }, [])
      | none => ({ s with child := .checkEvents }, [])
    else ({ s with child := .checkEvents }, [])
  | .transacting sent =>
    match s.cycleData with
    | some (i, _) =>
      ({ s with
          child := .transacted
          callers := Function.update s.callers i ((s.callers i).store answer) },
        [.transaction i sent answer])
    | none => ({ s with child := .transacted }, [])
  | .transacted =>
    match s.cycleData with
    | some (i, _) => ({ s with active := false, cycleData := none, child := .completing i }, [])
    | none => ({ s with active := false, child := .checkEvents }, [])
  | .completing i =>
    ({ s with
        child := .checkEvents
        callers := Function.update s.callers i (s.callers i).notify }, [])
  | .checkEvents =>
    match s.eventQueue with
    | event :: eventQueue => ({ s with eventQueue, child := .running event }, [])
    | [] => ({ s with child := .waiting }, [])
  | .running event => ({ s with child := .waiting }, [.ran event])
  | .ended => (s, [])

/-- The transport and the threads that use it. -/
def transport :
    Machine (TransportState ι α β γ) (TransportEvent ι α β γ) (TransportOutput ι α β γ) :=
  fun s e =>
    match e with
    | .call i frames =>
      match s.callers i with
      | .blocked _ _ _ => (s, [])  -- A thread is in one call at a time.
      | .idle =>
        if s.active then (s, [.refused i])
        else
          ({ s with
              active := true
              cycleData := some (i, frames)
              callers := Function.update s.callers i (.blocked frames none false) },
            [.accepted i frames])
    | .wake i =>
      match s.callers i with
      | .blocked _ replies true =>
        ({ s with callers := Function.update s.callers i .idle }, [.returned i replies])
      | _ => (s, [])
    | .post event => ({ s with eventQueue := s.eventQueue ++ [event] }, [])
    | .stop => ({ s with done := true }, [])
    | .child answer => childStep s answer

/-! ## The protocol of a call -/

/-- How far a thread is in a call of `BlockingCycle`. -/
inductive Phase (α β : Type) where
  | quiet
  | opened (frames : α)
  | answered (frames : α) (answer : β)

/-- The history of a thread: it is let in with some frames, there is one transaction of these, and it
returns with the answer. -/
inductive Protocol (i : ι) : List (TransportOutput ι α β γ) → Phase α β → Prop
  | nil : Protocol i [] .quiet
  | accepted {h frames} : Protocol i h .quiet →
      Protocol i (h ++ [.accepted i frames]) (.opened frames)
  | transaction {h frames answer} : Protocol i h (.opened frames) →
      Protocol i (h ++ [.transaction i frames answer]) (.answered frames answer)
  | returned {h frames answer} : Protocol i h (.answered frames answer) →
      Protocol i (h ++ [.returned i (some answer)]) .quiet
  | other {h phase o} : Protocol i h phase → o.caller ≠ some i → Protocol i (h ++ [o]) phase

def Caller.phase : Caller α β → Phase α β
  | .idle => .quiet
  | .blocked frames none _ => .opened frames
  | .blocked frames (some answer) _ => .answered frames answer

/-! ## The invariant -/

/-- Whom the transport works for, as `cycle_data_` and the position of its thread say. -/
structure TransportInv (s : TransportState ι α β γ) : Prop where
  /-- Nothing is left behind in `cycle_data_`, and no transaction goes on without a caller. -/
  inactive : s.active = false →
    s.cycleData = none ∧ s.child ≠ .transacted ∧ ∀ sent, s.child ≠ .transacting sent
  /-- The caller in `cycle_data_` waits; it has its replies once `CHILD_Cycle` has returned. -/
  active : s.active = true → ∃ i frames, s.cycleData = some (i, frames) ∧
    (s.child = .transacted → ∃ answer, s.callers i = .blocked frames (some answer) false) ∧
    (s.child ≠ .transacted → s.callers i = .blocked frames none false) ∧
    ∀ sent, s.child = .transacting sent → sent = frames
  /-- The callback that is about to be called belongs to a caller that has its replies. -/
  completing : ∀ i, s.child = .completing i →
    ∃ frames answer, s.callers i = .blocked frames (some answer) false
  /-- Who has been notified has its replies. -/
  notified : ∀ i frames replies, s.callers i = .blocked frames replies true →
    ∃ answer, replies = some answer
  /-- Who has not is the one in `cycle_data_`, or the one whose callback is about to be called. -/
  waiting : ∀ i frames replies, s.callers i = .blocked frames replies false →
    (∃ frames, s.cycleData = some (i, frames)) ∨ s.child = .completing i
  /-- The thread ends with the transport. -/
  ended : s.child = .ended → s.done = true

omit [DecidableEq ι] in
theorem transportInv_init : TransportInv ({} : TransportState ι α β γ) where
  inactive _ := ⟨rfl, by simp, by simp⟩
  active h := by cases h
  completing i h := by cases h
  notified i frames replies h := by cases h
  waiting i frames replies h := by cases h
  ended h := by cases h

/-- The invariant, with the history: every thread is as far in its call as its history says. -/
structure TransportRel (s : TransportState ι α β γ) (h : List (TransportOutput ι α β γ)) : Prop
    extends TransportInv s where
  protocol : ∀ i, Protocol i h (s.callers i).phase

omit [DecidableEq ι] in
/-- A step of the transport's thread that only moves on, or looks at the event queue. -/
theorem TransportRel.move {s : TransportState ι α β γ} {h : List (TransportOutput ι α β γ)}
    (hs : TransportRel s h) (child : Child ι α γ) (eventQueue : List γ)
    (hfrom : s.child ≠ .transacted) (howner : ∀ i, s.child ≠ .completing i)
    (htransacted : child ≠ .transacted)
    (htransacting : ∀ sent, child = .transacting sent →
      ∃ i, s.active = true ∧ s.cycleData = some (i, sent))
    (hcompleting : ∀ i, child ≠ .completing i) (hended : child = .ended → s.done = true) :
    TransportRel { s with child, eventQueue } h where
  inactive hactive :=
    ⟨(hs.inactive hactive).1, htransacted, fun sent hsent => by
      obtain ⟨-, htrue, -⟩ := htransacting sent hsent
      rw [hactive] at htrue
      cases htrue⟩
  active hactive := by
    obtain ⟨i, frames, hdata, -, hwaits, -⟩ := hs.active hactive
    refine ⟨i, frames, hdata, fun hchild => absurd hchild htransacted, fun _ => hwaits hfrom, ?_⟩
    intro sent hsent
    obtain ⟨i', -, hdata'⟩ := htransacting sent hsent
    rw [hdata] at hdata'
    cases hdata'
    rfl
  completing i hchild := absurd hchild (hcompleting i)
  notified := hs.notified
  waiting i frames replies hi :=
    (hs.waiting i frames replies hi).imp id fun hchild => absurd hchild (howner i)
  ended := hended
  protocol := hs.protocol

/-- The transaction of the caller in `cycle_data_`. -/
theorem TransportRel.transact {s : TransportState ι α β γ} {h : List (TransportOutput ι α β γ)}
    (hs : TransportRel s h) {sent : α} (hchild : s.child = .transacting sent) (answer : β) :
    TransportRel (childStep s answer).1 (h ++ (childStep s answer).2) := by
  have hactive : s.active = true := by
    by_contra hfalse
    exact (hs.inactive (Bool.eq_false_iff.mpr hfalse)).2.2 sent hchild
  obtain ⟨i, frames, hdata, -, hwaits, hsent⟩ := hs.active hactive
  obtain rfl : sent = frames := hsent sent hchild
  have hi : s.callers i = .blocked sent none false := hwaits (by simp [hchild])
  have hphase := hs.protocol i
  rw [hi] at hphase
  unfold childStep
  rw [hchild, hdata]
  dsimp only
  rw [hi]
  refine
    { inactive := fun hfalse => ?_
      active := fun _ => ⟨i, sent, rfl, fun _ => ⟨answer, Function.update_self ..⟩,
        fun hne => absurd rfl hne, fun _ hne => by cases hne⟩
      completing := fun _ hne => by cases hne
      notified := fun j frames replies hj => ?_
      waiting := fun j frames replies hj => ?_
      ended := fun hne => by cases hne
      protocol := fun j => ?_ }
  · rw [hactive] at hfalse
    cases hfalse
  · dsimp only at hj
    by_cases hsame : j = i
    · subst hsame
      simp [Caller.store] at hj
    · rw [Function.update_of_ne hsame] at hj
      exact hs.notified j frames replies hj
  · dsimp only at hj
    by_cases hsame : j = i
    · exact Or.inl ⟨sent, by rw [hsame]⟩
    · rw [Function.update_of_ne hsame] at hj
      rcases hs.waiting j frames replies hj with hin | hcomplete
      · rw [hdata] at hin
        exact Or.inl hin
      · rw [hchild] at hcomplete
        cases hcomplete
  · dsimp only
    by_cases hsame : j = i
    · subst hsame
      rw [Function.update_self]
      exact hphase.transaction
    · rw [Function.update_of_ne hsame]
      exact (hs.protocol j).other fun heq => hsame (Option.some.inj heq).symm

/-- The end of a transaction: `active_` is cleared and the callback taken out. -/
theorem TransportRel.complete {s : TransportState ι α β γ} {h : List (TransportOutput ι α β γ)}
    (hs : TransportRel s h) (hchild : s.child = .transacted) (answer : β) :
    TransportRel (childStep s answer).1 (h ++ (childStep s answer).2) := by
  have hactive : s.active = true := by
    by_contra hfalse
    exact (hs.inactive (Bool.eq_false_iff.mpr hfalse)).2.1 hchild
  obtain ⟨i, frames, hdata, hreplied, -, -⟩ := hs.active hactive
  obtain ⟨reply, hi⟩ := hreplied hchild
  unfold childStep
  rw [hchild, hdata]
  dsimp only
  rw [List.append_nil]
  refine
    { inactive := fun _ => ⟨rfl, by simp, by simp⟩
      active := fun hne => by cases hne
      completing := fun j hj => ?_
      notified := hs.notified
      waiting := fun j frames' replies hj => ?_
      ended := fun hne => by cases hne
      protocol := hs.protocol }
  · cases hj
    exact ⟨frames, reply, hi⟩
  · rcases hs.waiting j frames' replies hj with ⟨_, hin⟩ | hcomplete
    · rw [hdata] at hin
      cases hin
      exact Or.inr rfl
    · rw [hchild] at hcomplete
      cases hcomplete

/-- The callback. -/
theorem TransportRel.callback {s : TransportState ι α β γ} {h : List (TransportOutput ι α β γ)}
    (hs : TransportRel s h) {i : ι} (hchild : s.child = .completing i) (answer : β) :
    TransportRel (childStep s answer).1 (h ++ (childStep s answer).2) := by
  obtain ⟨frames, reply, hi⟩ := hs.completing i hchild
  unfold childStep
  rw [hchild]
  dsimp only
  rw [List.append_nil, hi]
  refine
    { inactive := fun hfalse => ⟨(hs.inactive hfalse).1, by simp, by simp⟩
      active := fun hactive => ?_
      completing := fun _ hne => by cases hne
      notified := fun j frames' replies hj => ?_
      waiting := fun j frames' replies hj => ?_
      ended := fun hne => by cases hne
      protocol := fun j => ?_ }
  · obtain ⟨owner, frames', hdata, -, hwaits, -⟩ := hs.active hactive
    have howner := hwaits (by simp [hchild])
    have hne : owner ≠ i := by
      rintro rfl
      rw [hi] at howner
      cases howner
    refine ⟨owner, frames', hdata, fun hne => (by cases hne), fun _ => ?_, fun _ hne => by cases hne⟩
    dsimp only
    rw [Function.update_of_ne hne]
    exact howner
  · dsimp only at hj
    by_cases hsame : j = i
    · subst hsame
      rw [Function.update_self, Caller.notify, Caller.blocked.injEq] at hj
      exact ⟨reply, hj.2.1.symm⟩
    · rw [Function.update_of_ne hsame] at hj
      exact hs.notified j frames' replies hj
  · dsimp only at hj
    by_cases hsame : j = i
    · subst hsame
      simp [Caller.notify] at hj
    · rw [Function.update_of_ne hsame] at hj
      rcases hs.waiting j frames' replies hj with hin | hcomplete
      · exact Or.inl hin
      · rw [hchild] at hcomplete
        cases hcomplete
        exact absurd rfl hsame
  · dsimp only
    by_cases hsame : j = i
    · subst hsame
      have hphase := hs.protocol j
      rw [hi] at hphase
      rw [Function.update_self]
      exact hphase
    · rw [Function.update_of_ne hsame]
      exact hs.protocol j

/-- **The steps of the transport's thread keep the invariant.** -/
theorem TransportRel.child {s : TransportState ι α β γ} {h : List (TransportOutput ι α β γ)}
    (hs : TransportRel s h) (answer : β) :
    TransportRel (childStep s answer).1 (h ++ (childStep s answer).2) := by
  cases hchild : s.child with
  | transacting sent => exact hs.transact hchild answer
  | transacted => exact hs.complete hchild answer
  | completing i => exact hs.callback hchild answer
  | waiting =>
    have hmove := fun child => hs.move child s.eventQueue (by simp [hchild]) (by simp [hchild])
    unfold childStep
    rw [hchild]
    dsimp only
    split
    · rename_i hdone
      rw [List.append_nil]
      exact hmove .ended (by simp) (by simp) (by simp) (fun _ => hdone)
    · split
      · rw [List.append_nil]
        exact hmove .checkActive (by simp) (by simp) (by simp) (by simp)
      · rw [List.append_nil]
        exact hs
  | checkActive =>
    have hmove := fun child => hs.move child s.eventQueue (by simp [hchild]) (by simp [hchild])
    unfold childStep
    rw [hchild]
    dsimp only
    split
    · rename_i hactive
      obtain ⟨i, frames, hdata, -⟩ := hs.active hactive
      have hsent := hmove (.transacting frames) (by simp)
        (fun sent hsent => ⟨i, hactive, by cases hsent; exact hdata⟩) (by simp) (by simp)
      simp only [hdata, List.append_nil] at hsent ⊢
      exact hsent
    · rw [List.append_nil]
      exact hmove .checkEvents (by simp) (by simp) (by simp) (by simp)
  | checkEvents =>
    have hmove := fun child queue => hs.move child queue (by simp [hchild]) (by simp [hchild])
    unfold childStep
    rw [hchild]
    dsimp only
    cases hqueue : s.eventQueue with
    | nil =>
      have hwait := hmove .waiting [] (by simp) (by simp) (by simp) (by simp)
      dsimp only
      rw [List.append_nil, ← hqueue] at *
      exact hwait
    | cons event queue =>
      dsimp only
      rw [List.append_nil]
      exact hmove (.running event) queue (by simp) (by simp) (by simp) (by simp)
  | running event =>
    have hwait := hs.move .waiting s.eventQueue (by simp [hchild]) (by simp [hchild]) (by simp)
      (by simp) (by simp) (by simp)
    unfold childStep
    rw [hchild]
    exact { hwait with
      protocol := fun i => (hwait.protocol i).other (by simp [TransportOutput.caller]) }
  | ended =>
    unfold childStep
    rw [hchild, List.append_nil]
    exact hs

/-- A call that is let in. -/
theorem TransportRel.accept {s : TransportState ι α β γ} {h : List (TransportOutput ι α β γ)}
    (hs : TransportRel s h) {i : ι} (hidle : s.callers i = .idle) (hactive : s.active = false)
    (frames : α) :
    TransportRel
      { s with
        active := true
        cycleData := some (i, frames)
        callers := Function.update s.callers i (.blocked frames none false) }
      (h ++ [.accepted i frames]) := by
  obtain ⟨hdata, hnot, hnone⟩ := hs.inactive hactive
  have hphase := hs.protocol i
  rw [hidle] at hphase
  refine
    { inactive := fun hfalse => by cases hfalse
      active := fun _ => ⟨i, frames, rfl, fun hchild => absurd hchild hnot,
        fun _ => Function.update_self .., fun sent hchild => absurd hchild (hnone sent)⟩
      completing := fun j hchild => ?_
      notified := fun j frames' replies hj => ?_
      waiting := fun j frames' replies hj => ?_
      ended := hs.ended
      protocol := fun j => ?_ }
  · obtain ⟨frames', reply, hj⟩ := hs.completing j hchild
    have hne : j ≠ i := by
      rintro rfl
      rw [hidle] at hj
      cases hj
    exact ⟨frames', reply, (Function.update_of_ne hne ..).trans hj⟩
  · dsimp only at hj
    by_cases hsame : j = i
    · subst hsame
      simp at hj
    · rw [Function.update_of_ne hsame] at hj
      exact hs.notified j frames' replies hj
  · dsimp only at hj
    by_cases hsame : j = i
    · exact Or.inl ⟨frames, by rw [hsame]⟩
    · rw [Function.update_of_ne hsame] at hj
      rcases hs.waiting j frames' replies hj with ⟨_, hin⟩ | hcomplete
      · rw [hdata] at hin
        cases hin
      · exact Or.inr hcomplete
  · dsimp only
    by_cases hsame : j = i
    · subst hsame
      rw [Function.update_self]
      exact hphase.accepted
    · rw [Function.update_of_ne hsame]
      exact (hs.protocol j).other fun heq => hsame (Option.some.inj heq).symm

/-- A call that returns. -/
theorem TransportRel.wake {s : TransportState ι α β γ} {h : List (TransportOutput ι α β γ)}
    (hs : TransportRel s h) {i : ι} {frames : α} {replies : Option β}
    (hi : s.callers i = .blocked frames replies true) :
    TransportRel { s with callers := Function.update s.callers i .idle }
      (h ++ [.returned i replies]) := by
  obtain ⟨reply, rfl⟩ := hs.notified i frames replies hi
  have hphase := hs.protocol i
  rw [hi] at hphase
  refine
    { inactive := hs.inactive
      active := fun hactive => ?_
      completing := fun j hchild => ?_
      notified := fun j frames' replies hj => ?_
      waiting := fun j frames' replies hj => ?_
      ended := hs.ended
      protocol := fun j => ?_ }
  · obtain ⟨owner, frames', hdata, hreplied, hwaits, hsent⟩ := hs.active hactive
    have hne : owner ≠ i := by
      rintro rfl
      by_cases hchild : s.child = .transacted
      · obtain ⟨_, howner⟩ := hreplied hchild
        rw [hi] at howner
        cases howner
      · have howner := hwaits hchild
        rw [hi] at howner
        cases howner
    have hsame := Function.update_of_ne hne (.idle : Caller α β) s.callers
    exact ⟨owner, frames', hdata, fun hchild => (hreplied hchild).imp fun _ => hsame.trans,
      fun hchild => hsame.trans (hwaits hchild), hsent⟩
  · obtain ⟨frames', reply', hj⟩ := hs.completing j hchild
    have hne : j ≠ i := by
      rintro rfl
      rw [hi] at hj
      cases hj
    exact ⟨frames', reply', (Function.update_of_ne hne ..).trans hj⟩
  · dsimp only at hj
    by_cases hsame : j = i
    · subst hsame
      simp at hj
    · rw [Function.update_of_ne hsame] at hj
      exact hs.notified j frames' replies hj
  · dsimp only at hj
    by_cases hsame : j = i
    · subst hsame
      simp at hj
    · rw [Function.update_of_ne hsame] at hj
      exact hs.waiting j frames' replies hj
  · dsimp only
    by_cases hsame : j = i
    · subst hsame
      rw [Function.update_self]
      exact hphase.returned
    · rw [Function.update_of_ne hsame]
      exact (hs.protocol j).other fun heq => hsame (Option.some.inj heq).symm

/-- **Every step keeps the invariant.** -/
theorem TransportRel.step {s : TransportState ι α β γ} {h : List (TransportOutput ι α β γ)}
    (hs : TransportRel s h) (e : TransportEvent ι α β γ) :
    TransportRel (transport s e).1 (h ++ (transport s e).2) := by
  cases e with
  | child answer => exact hs.child answer
  | post event =>
    show TransportRel { s with eventQueue := s.eventQueue ++ [event] } (h ++ [])
    rw [List.append_nil]
    exact { hs with }
  | stop =>
    show TransportRel { s with done := true } (h ++ [])
    rw [List.append_nil]
    exact { hs with ended := fun _ => rfl }
  | call i frames =>
    unfold transport
    cases hi : s.callers i with
    | blocked frames' replies notified =>
      simp only [hi, List.append_nil]
      exact hs
    | idle =>
      simp only [hi]
      split
      · exact { hs with
          protocol := fun j => (hs.protocol j).other (by simp [TransportOutput.caller]) }
      · rename_i hactive
        exact hs.accept hi (Bool.eq_false_iff.mpr hactive) frames
  | wake i =>
    unfold transport
    cases hi : s.callers i with
    | idle =>
      simp only [hi, List.append_nil]
      exact hs
    | blocked frames replies notified =>
      cases notified with
      | false =>
        simp only [hi, List.append_nil]
        exact hs
      | true =>
        simp only [hi]
        exact hs.wake hi

theorem transportRel_run (es : List (TransportEvent ι α β γ)) :
    TransportRel (transport.after ({} : TransportState ι α β γ) es)
      (transport.trace ({} : TransportState ι α β γ) es) := by
  have hinit : TransportRel ({} : TransportState ι α β γ) [] :=
    { transportInv_init with protocol := fun _ => .nil }
  have hrun := @Machine.history_induction _ _ _ transport TransportRel _ _ hinit
    (fun s h e hs => hs.step e) es
  rwa [List.nil_append] at hrun

/-- **In every interleaving** a thread is let in, has its own frames carried out once and returns
with the answer to them, call after call; between two calls it owes nothing. -/
theorem cycle_protocol (es : List (TransportEvent ι α β γ)) (i : ι) :
    ∃ phase, Protocol i (transport.trace ({} : TransportState ι α β γ) es) phase ∧
      ((transport.after ({} : TransportState ι α β γ) es).callers i = .idle → phase = .quiet) :=
  ⟨_, (transportRel_run es).protocol i, fun hidle => by rw [hidle]; rfl⟩

/-! ## No call waits for ever -/

/-- How many steps of the transport's thread a caller that has not been notified waits for, at
most. -/
def rank (s : TransportState ι α β γ) (i : ι) : Nat :=
  match s.callers i with
  | .blocked _ _ false =>
    match s.child with
    | .completing j => if j = i then 1 else 8
    | .transacted => 2
    | .transacting _ => 3
    | .checkActive => 4
    | .waiting => 5
    | .running _ => 6
    | .checkEvents => 7
    | .ended => 9
  | _ => 0

def TransportEvent.isChild : TransportEvent ι α β γ → Bool
  | .child _ => true
  | _ => false

omit [DecidableEq ι] in
/-- A caller that has not been notified is the one in `cycle_data_`, but for the moment in front of
its callback. -/
theorem TransportRel.owner {s : TransportState ι α β γ} {h : List (TransportOutput ι α β γ)}
    (hs : TransportRel s h) {i : ι} {frames : α} {replies : Option β}
    (hi : s.callers i = .blocked frames replies false) (hchild : ∀ j, s.child ≠ .completing j) :
    s.active = true ∧ ∃ frames', s.cycleData = some (i, frames') := by
  rcases hs.waiting i frames replies hi with ⟨frames', hdata⟩ | hcomplete
  · refine ⟨?_, frames', hdata⟩
    by_contra hfalse
    rw [(hs.inactive (Bool.eq_false_iff.mpr hfalse)).1] at hdata
    cases hdata
  · exact absurd hcomplete (hchild i)

/-- Each step of the transport's thread brings a caller closer to being notified. -/
theorem TransportRel.rank_child {s : TransportState ι α β γ} {h : List (TransportOutput ι α β γ)}
    (hs : TransportRel s h) (hdone : s.done = false) {i : ι} {frames : α} {replies : Option β}
    (hi : s.callers i = .blocked frames replies false) (answer : β) :
    ∃ replies' notified, (childStep s answer).1.callers i = .blocked frames replies' notified ∧
      rank (childStep s answer).1 i < rank s i := by
  have howner := hs.owner hi
  cases hchild : s.child with
  | waiting =>
    obtain ⟨hactive, -⟩ := howner (by simp [hchild])
    refine ⟨replies, false, ?_⟩
    simp [childStep, rank, hchild, hdone, hactive, hi]
  | checkActive =>
    obtain ⟨hactive, frames', hdata⟩ := howner (by simp [hchild])
    refine ⟨replies, false, ?_⟩
    simp [childStep, rank, hchild, hactive, hdata, hi]
  | transacting sent =>
    obtain ⟨-, frames', hdata⟩ := howner (by simp [hchild])
    refine ⟨some answer, false, ?_⟩
    simp [childStep, rank, hchild, hdata, hi, Caller.store]
  | transacted =>
    obtain ⟨-, frames', hdata⟩ := howner (by simp [hchild])
    refine ⟨replies, false, ?_⟩
    simp [childStep, rank, hchild, hdata, hi]
  | completing j =>
    by_cases hsame : i = j
    · subst hsame
      refine ⟨replies, true, ?_⟩
      simp [childStep, rank, hchild, hi, Caller.notify]
    · refine ⟨replies, false, ?_⟩
      simp [childStep, rank, hchild, hi, Function.update_of_ne hsame, Ne.symm hsame]
  | checkEvents =>
    refine ⟨replies, false, ?_⟩
    cases hqueue : s.eventQueue <;> simp [childStep, rank, hchild, hi, hqueue]
  | running event =>
    refine ⟨replies, false, ?_⟩
    simp [childStep, rank, hchild, hi]
  | ended =>
    have htrue := hs.ended hchild
    rw [hdone] at htrue
    cases htrue

theorem childStep_done (s : TransportState ι α β γ) (answer : β) :
    (childStep s answer).1.done = s.done := by
  unfold childStep
  cases s.child <;> dsimp only <;> repeat' split
  all_goals rfl

theorem rank_congr {s s' : TransportState ι α β γ} {i : ι} (hcallers : s'.callers i = s.callers i)
    (hchild : s'.child = s.child) : rank s' i = rank s i := by
  unfold rank
  rw [hcallers, hchild]

/-- Nobody else's step takes it farther away, unless the transport is destroyed. -/
theorem TransportRel.rank_step {s : TransportState ι α β γ} {h : List (TransportOutput ι α β γ)}
    (hs : TransportRel s h) (hdone : s.done = false) {i : ι} {frames : α} {replies : Option β}
    (hi : s.callers i = .blocked frames replies false) {e : TransportEvent ι α β γ}
    (he : e ≠ .stop) :
    (transport s e).1.done = false ∧
      ∃ replies' notified, (transport s e).1.callers i = .blocked frames replies' notified ∧
        rank (transport s e).1 i + (if e.isChild then 1 else 0) ≤ rank s i := by
  cases e with
  | stop => exact absurd rfl he
  | child answer =>
    obtain ⟨replies', notified, hi', hlt⟩ := hs.rank_child hdone hi answer
    exact ⟨(childStep_done s answer).trans hdone, replies', notified, hi', hlt⟩
  | post event => exact ⟨hdone, replies, false, hi, Nat.le_refl _⟩
  | call j frames' =>
    unfold transport
    cases hj : s.callers j with
    | blocked frames'' replies'' notified =>
      simp only [hj]
      exact ⟨hdone, replies, false, hi, Nat.le_refl _⟩
    | idle =>
      have hne : i ≠ j := by
        rintro rfl
        rw [hi] at hj
        cases hj
      simp only [hj]
      split
      · exact ⟨hdone, replies, false, hi, Nat.le_refl _⟩
      · have hsame := Function.update_of_ne hne (.blocked frames' none false) s.callers
        exact ⟨hdone, replies, false, hsame.trans hi, Nat.le_of_eq (rank_congr hsame rfl)⟩
  | wake j =>
    unfold transport
    cases hj : s.callers j with
    | idle =>
      simp only [hj]
      exact ⟨hdone, replies, false, hi, Nat.le_refl _⟩
    | blocked frames' replies' notified =>
      cases notified with
      | false =>
        simp only [hj]
        exact ⟨hdone, replies, false, hi, Nat.le_refl _⟩
      | true =>
        have hne : i ≠ j := by
          rintro rfl
          rw [hi] at hj
          cases hj
        have hsame := Function.update_of_ne hne (.idle : Caller α β) s.callers
        simp only [hj]
        exact ⟨hdone, replies, false, hsame.trans hi, Nat.le_of_eq (rank_congr hsame rfl)⟩

/-- A run with steps enough notifies a caller that waits. -/
theorem TransportRel.notified_after {s : TransportState ι α β γ}
    {h : List (TransportOutput ι α β γ)} (hs : TransportRel s h) (hdone : s.done = false) {i : ι}
    {frames : α} {replies : Option β} (hi : s.callers i = .blocked frames replies false)
    {es : List (TransportEvent ι α β γ)} (hstop : ∀ e ∈ es, e ≠ .stop)
    (hsteps : rank s i ≤ es.countP TransportEvent.isChild) :
    ∃ pre post, es = pre ++ post ∧
      ∃ answer, (transport.after s pre).callers i = .blocked frames (some answer) true := by
  induction es generalizing s h replies with
  | nil =>
    have hpos : 0 < rank s i := by
      unfold rank
      rw [hi]
      dsimp only
      cases s.child <;> simp
      split <;> omega
    rw [List.countP_nil] at hsteps
    omega
  | cons e es ih =>
    obtain ⟨he, hrest⟩ := List.forall_mem_cons.mp hstop
    obtain ⟨hdone', replies', notified, hi', hrank⟩ := hs.rank_step hdone hi he
    have hs' := hs.step e
    rw [List.countP_cons] at hsteps
    cases notified with
    | true =>
      obtain ⟨answer, rfl⟩ := hs'.notified i frames replies' hi'
      exact ⟨[e], es, rfl, answer, hi'⟩
    | false =>
      obtain ⟨pre, post, rfl, answer, hnotified⟩ := ih hs' hdone' hi' hrest (by omega)
      exact ⟨e :: pre, post, rfl, answer, hnotified⟩

/-- A run without the destructor leaves `done_` alone. -/
theorem done_after {es : List (TransportEvent ι α β γ)} (hstop : ∀ e ∈ es, e ≠ .stop)
    {s : TransportState ι α β γ} (hdone : s.done = false) : (transport.after s es).done = false := by
  induction es generalizing s with
  | nil => exact hdone
  | cons e es ih =>
    obtain ⟨he, hrest⟩ := List.forall_mem_cons.mp hstop
    refine ih hrest ?_
    cases e with
    | stop => exact absurd rfl he
    | child answer => exact (childStep_done s answer).trans hdone
    | post event => exact hdone
    | call i frames =>
      unfold transport
      dsimp only
      split
      · exact hdone
      · split <;> exact hdone
    | wake i =>
      unfold transport
      dsimp only
      split <;> exact hdone

theorem rank_le (s : TransportState ι α β γ) (hended : s.child ≠ .ended) (i : ι) : rank s i ≤ 8 := by
  unfold rank
  cases s.callers i with
  | idle => exact Nat.zero_le _
  | blocked frames replies notified =>
    cases notified with
    | true => exact Nat.zero_le _
    | false =>
      cases hchild : s.child with
      | completing j =>
        dsimp only
        split <;> omega
      | ended => exact absurd hchild hended
      | _ => simp

/-- **No call waits for ever.** As long as the transport lives, a thread in `BlockingCycle` has been
notified, with its replies stored, once the transport's thread has taken eight more steps, whatever
all the others do in between. -/
theorem blocked_notified {es es' : List (TransportEvent ι α β γ)}
    (hstop : ∀ e ∈ es ++ es', e ≠ .stop) {i : ι} {frames : α} {replies : Option β}
    (hi : (transport.after ({} : TransportState ι α β γ) es).callers i =
      .blocked frames replies false)
    (hsteps : 8 ≤ es'.countP TransportEvent.isChild) :
    ∃ pre post, es' = pre ++ post ∧
      ∃ answer, (transport.after ({} : TransportState ι α β γ) (es ++ pre)).callers i =
        .blocked frames (some answer) true := by
  obtain ⟨hbefore, hbehind⟩ := List.forall_mem_append.mp hstop
  have hs := transportRel_run es
  have hdone := done_after (s := ({} : TransportState ι α β γ)) hbefore rfl
  have hrank : rank (transport.after ({} : TransportState ι α β γ) es) i ≤ 8 := by
    refine rank_le _ (fun hended => ?_) i
    have htrue := hs.ended hended
    rw [hdone] at htrue
    cases htrue
  obtain ⟨pre, post, rfl, answer, hnotified⟩ :=
    hs.notified_after hdone hi hbehind (Nat.le_trans hrank hsteps)
  refine ⟨pre, post, rfl, answer, ?_⟩
  rw [Machine.after_append]
  exact hnotified

/-- One call, and the thread of the transport on its own. -/
theorem blocked_notified_call :
    ∃ pre post : List (TransportEvent Nat Nat Nat Nat), List.replicate 8 (.child 5) = pre ++ post ∧
      ∃ answer,
        (transport.after {} ([.call 0 3] ++ pre)).callers 0 = .blocked 3 (some answer) true :=
  @blocked_notified _ _ _ _ _ [.call 0 3] (List.replicate 8 (.child 5)) (by simp) 0 3 none rfl
    (by decide)

end Pi3Hat
