import RobotFramework.Networks.Udp

/-!
# `Networks/UDP.cpp`: `clear_buffer`

The loop goes on until `recvfrom` returns zero. That is what it returns for an *empty datagram*; on
the empty queue it returns -1, with which the loop of `receive` ends and this one does not. So the
call never returns unless an empty datagram is pending (`splitsAt_of_clearLoop`), and then it leaves
whatever is queued behind the first one.
-/

namespace RobotFramework.Udp

/-- One call of `recvfrom` with `MSG_DONTWAIT`, and what it returns. -/
def recvDontWait (u : Udp) (len : Nat) (h : len ≤ u.bufferSize) : Udp × Int :=
  match u.queue with
  | [] => (u, -1)
  | d :: q => (u.recvfrom len h d q, (d.payload.take len).length)

/-- The loop of `clear_buffer`, which `discard_msg` controls: `none` when it is still running after
`fuel` rounds. -/
def clearLoop : Nat → Int → Udp → Option Udp
  | 0, discardMsg, u => if discardMsg ≠ 0 then none else some u
  | fuel + 1, discardMsg, u =>
    if discardMsg ≠ 0 then
      let (u, discardMsg) := u.recvDontWait u.bufferSize (Nat.le_refl _)
      clearLoop fuel discardMsg u
    else some u

/-- `clear_buffer` -/
def clearBuffer (fuel : Nat) (u : Udp) : Option Udp := clearLoop fuel 1 u

/-- The buffer has room for a byte, so that only an empty datagram counts zero bytes. -/
theorem length_take_bufferSize_eq_zero {u : Udp} {d : Datagram} :
    ((d.payload.take u.bufferSize).length : Int) = 0 ↔ d.payload = [] := by
  have hpos := u.bufferSize_pos
  rw [Int.natCast_eq_zero, List.length_eq_zero_iff, List.take_eq_nil_iff]
  constructor
  · rintro (hzero | hnil)
    · omega
    · exact hnil
  · exact Or.inr

theorem clearLoop_zero (fuel : Nat) (u : Udp) : clearLoop fuel 0 u = some u := by
  cases fuel <;> rfl

/-- A round on the empty queue changes nothing. -/
theorem clearLoop_nil {fuel : Nat} {discardMsg : Int} {u : Udp} (hdiscard : discardMsg ≠ 0)
    (hq : u.queue = []) : clearLoop (fuel + 1) discardMsg u = clearLoop fuel (-1) u := by
  simp [clearLoop, hdiscard, recvDontWait, hq]

theorem clearLoop_cons {fuel : Nat} {discardMsg : Int} {u : Udp} {d : Datagram} {q : List Datagram}
    (hdiscard : discardMsg ≠ 0) (hq : u.queue = d :: q) :
    clearLoop (fuel + 1) discardMsg u =
      clearLoop fuel ((d.payload.take u.bufferSize).length : Int)
        (u.recvfrom u.bufferSize (Nat.le_refl _) d q) := by
  simp [clearLoop, hdiscard, recvDontWait, hq]

/-- The queue splits at its first empty datagram into what the call takes off and what it leaves. -/
def SplitsAt (queue left : List Datagram) : Prop :=
  ∃ q d, queue = q ++ d :: left ∧ d.payload = [] ∧ ∀ e ∈ q, e.payload ≠ []

theorem SplitsAt.ne_nil {queue left : List Datagram} (h : SplitsAt queue left) : queue ≠ [] := by
  obtain ⟨q, d, rfl, -⟩ := h
  simp

/-- **A call that returns** has taken off the first empty datagram and what was in front of it. -/
theorem splitsAt_of_clearLoop {fuel : Nat} {discardMsg : Int} {u u' : Udp}
    (hdiscard : discardMsg ≠ 0) (h : clearLoop fuel discardMsg u = some u') :
    SplitsAt u.queue u'.queue := by
  induction fuel generalizing discardMsg u with
  | zero => simp [clearLoop, hdiscard] at h
  | succ fuel ih =>
    cases hq : u.queue with
    -- The -1 of the empty queue is not zero either: another round.
    | nil =>
      rw [clearLoop_nil hdiscard hq] at h
      have := ih (by decide) h
      rwa [hq] at this
    | cons d q =>
      rw [clearLoop_cons hdiscard hq] at h
      by_cases hd : d.payload = []
      · rw [length_take_bufferSize_eq_zero.mpr hd, clearLoop_zero] at h
        obtain rfl := Option.some.inj h
        exact ⟨[], d, rfl, hd, by simp⟩
      · obtain ⟨q', e, hsplit, he, hq'⟩ := ih (mt length_take_bufferSize_eq_zero.mp hd) h
        refine ⟨d :: q', e, by rw [List.cons_append, ← hsplit]; rfl, he, ?_⟩
        intro c hc
        rcases List.mem_cons.mp hc with rfl | hc
        · exact hd
        · exact hq' c hc

/-- With an empty datagram pending the call returns. -/
theorem clearLoop_of_splitsAt {discardMsg : Int} {u : Udp} {left : List Datagram}
    (hdiscard : discardMsg ≠ 0) (h : SplitsAt u.queue left) :
    ∃ fuel u', clearLoop fuel discardMsg u = some u' ∧ u'.queue = left := by
  obtain ⟨q, d, hq, hd, hmem⟩ := h
  -- On what is pending in front of the first empty datagram.
  induction q generalizing discardMsg u with
  | nil =>
    refine ⟨1, u.recvfrom u.bufferSize (Nat.le_refl _) d left, ?_, rfl⟩
    rw [clearLoop_cons hdiscard hq, length_take_bufferSize_eq_zero.mpr hd]
    rfl
  | cons e q ih =>
    have he : e.payload ≠ [] := hmem e List.mem_cons_self
    obtain ⟨fuel, u', hloop, hleft⟩ :=
      ih (u := u.recvfrom u.bufferSize (Nat.le_refl _) e (q ++ d :: left))
        (mt length_take_bufferSize_eq_zero.mp he) rfl
        fun c hc => hmem c (List.mem_cons_of_mem _ hc)
    exact ⟨fuel + 1, u', by rw [clearLoop_cons hdiscard hq]; exact hloop, hleft⟩

/-- **`clear_buffer` returns with the queue empty exactly when** the last pending datagram is empty
and no other one is. -/
theorem clearBuffer_empties_iff (u : Udp) :
    (∃ fuel u', u.clearBuffer fuel = some u' ∧ u'.queue = []) ↔
      ∃ q d, u.queue = q ++ [d] ∧ d.payload = [] ∧ ∀ e ∈ q, e.payload ≠ [] := by
  constructor
  · rintro ⟨fuel, u', hclear, hempty⟩
    have hsplit := splitsAt_of_clearLoop (by decide) hclear
    rwa [hempty] at hsplit
  · intro hsplit
    exact clearLoop_of_splitsAt (by decide) hsplit

/-- No datagram is pending: the call never returns, where `receive` does. -/
theorem clearBuffer_hangs :
    ¬ (∀ u : Udp, ∃ fuel u', u.clearBuffer fuel = some u' ∧ u'.queue = []) ∧
    ∀ fuel, (new none (.inet 0 0) (.inet 0 0) []).clearBuffer fuel = none := by
  have hnone : ∀ fuel, (new none (.inet 0 0) (.inet 0 0) []).clearBuffer fuel = none := by
    intro fuel
    cases hclear : (new none (.inet 0 0) (.inet 0 0) []).clearBuffer fuel with
    | none => rfl
    | some u' => exact absurd rfl (splitsAt_of_clearLoop (by decide) hclear).ne_nil
  refine ⟨fun h => ?_, hnone⟩
  obtain ⟨fuel, u', hclear, -⟩ := h (new none (.inet 0 0) (.inet 0 0) [])
  rw [hnone] at hclear
  cases hclear

end RobotFramework.Udp
