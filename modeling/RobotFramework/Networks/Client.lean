import RobotFramework.Lib.Reactive
import RobotFramework.Networks.Udp

/-!
# Whom the telemetry reaches

`UDP::receive` notes who sent the newest datagram, `UDP::send` answers. The socket is followed
through any interleaving of the two with arrivals from any mix of sources, and what it is sent after
is compared with what the calls say: the source of the datagram received last (`heard`).

`send` transmits first and turns `target_addr` to the client afterwards, so that each transmission
goes where the client was at the *previous* one (`transmitted_to_client_iff`).
-/

namespace RobotFramework

open Cxx Reactive

inductive UdpCall where
  | arrive (d : Datagram)
  | receive
  | send (message : Text)
deriving DecidableEq

namespace Udp

/-- The socket under the calls of its user, with what it transmits. -/
def calls : Machine Udp UdpCall (SockAddr × Text)
  | u, .arrive d => (u.arrive d, [])
  | u, .receive => (u.receive.1, [])
  | u, .send message => ((u.send message).2, [(u.send message).1])

/-! ## What the calls say -/

/-- What has arrived and is not received yet, and the datagram received last. -/
structure Heard where
  pending : List Datagram
  latest : Option Datagram

def Heard.observe : Heard → UdpCall → Heard
  | h, .arrive d => { h with pending := h.pending ++ [d] }
  | h, .receive => { pending := [], latest := h.pending.getLast? <|> h.latest }
  | h, .send _ => h

/-- The datagram received last, in a run of calls. -/
def heard (u : Udp) (es : List UdpCall) : Option Datagram :=
  (es.foldl Heard.observe { pending := u.queue, latest := none }).latest

/-- Who is answered: the source of the datagram received last, and before that whatever the memory
of `client_addr` held. -/
def client (u : Udp) (es : List UdpCall) : SockAddr :=
  ((u.heard es).map Datagram.source).getD u.clientAddr

/-- Where an answer to a datagram is meant to go. -/
def replyTo (u : Udp) (ip : BitVec 32) : SockAddr :=
  .inet ip (BitVec.ofInt 16 u.senderPort)

/-! ## The socket follows them -/

theorem senderPort_after (u : Udp) (es : List UdpCall) :
    (calls.after u es).senderPort = u.senderPort := by
  induction es generalizing u with
  | nil => rfl
  | cons e es ih =>
    rw [Machine.after_cons, ih]
    cases e with
    | arrive d => rfl
    | receive => exact u.ports_receive.2.2
    | send message => rfl

/-- The socket `v` agrees with what was heard since it was `u`. -/
def Follows (u v : Udp) (h : Heard) : Prop :=
  v.queue = h.pending ∧ v.clientAddr = (h.latest.map Datagram.source).getD u.clientAddr

theorem follows_call {u v : Udp} {h : Heard} (hv : Follows u v h) (e : UdpCall) :
    Follows u (calls v e).1 (h.observe e) := by
  obtain ⟨hqueue, hclient⟩ := hv
  cases e with
  | arrive d => exact ⟨congrArg (· ++ [d]) hqueue, hclient⟩
  | send message => exact ⟨hqueue, hclient⟩
  | receive =>
    refine ⟨v.receive_eq_poll.2, ?_⟩
    show v.receive.1.clientAddr = _
    rw [clientAddr_receive, hqueue, hclient]
    cases hlast : h.pending.getLast? with
    | none => simp [Heard.observe, hlast]
    | some d => simp [Heard.observe, hlast]

/-- `client_addr` is the source of the datagram received last. -/
theorem clientAddr_after (u : Udp) (es : List UdpCall) :
    (calls.after u es).clientAddr = u.client es := by
  have hfollows : Follows u u { pending := u.queue, latest := none } := ⟨rfl, rfl⟩
  exact (Machine.rel_after_foldl (Follows u) hfollows (fun _ _ e hv => follows_call hv e) es).2

theorem targetAddr_of_no_send (u : Udp) {es : List UdpCall}
    (hes : ∀ e ∈ es, ∀ message, e ≠ .send message) :
    (calls.after u es).targetAddr = u.targetAddr := by
  induction es generalizing u with
  | nil => rfl
  | cons e es ih =>
    have htail := ih (calls u e).1 (fun f hf => hes f (List.mem_cons_of_mem _ hf))
    rw [Machine.after_cons, htail]
    cases e with
    | arrive d => rfl
    | receive => exact u.ports_receive.2.1
    | send message => exact absurd rfl (hes _ List.mem_cons_self message)

/-- **What `send` transmits to**: the client at the previous `send`. -/
theorem targetAddr_after_send (u : Udp) (before : List UdpCall) (message : Text)
    {between : List UdpCall} (hbetween : ∀ e ∈ between, ∀ message, e ≠ .send message) :
    (calls.after u (before ++ .send message :: between)).targetAddr =
      u.replyTo (u.client before).ip := by
  rw [Machine.after_append, Machine.after_cons, targetAddr_of_no_send _ hbetween]
  show SockAddr.inet (calls.after u before).clientAddr.ip _ = _
  rw [clientAddr_after, senderPort_after]
  rfl

/-- **When a `send` reaches the client heard last**: if the client was already that one at the
`send` before, and at the very first `send` only if the memory of `target_addr` happens to hold
it. -/
theorem transmitted_to_client_iff (u : Udp) (pre : List UdpCall) (message : Text) (d : Datagram)
    (hd : u.heard pre = some d) :
    (calls (calls.after u pre) (.send message)).2 = [(u.replyTo d.source.ip, message)] ↔
      (∃ before earlier between, pre = before ++ .send earlier :: between ∧
        (∀ e ∈ between, ∀ m, e ≠ .send m) ∧ (u.client before).ip = d.source.ip) ∨
      (∀ e ∈ pre, ∀ m, e ≠ .send m) ∧ u.targetAddr = u.replyTo d.source.ip := by
  have hout : (calls (calls.after u pre) (.send message)).2 = [(u.replyTo d.source.ip, message)] ↔
      (calls.after u pre).targetAddr = u.replyTo d.source.ip := by
    simp [calls, send]
  have hreply : ∀ ip ip', u.replyTo ip = u.replyTo ip' ↔ ip = ip' := by
    simp [replyTo, SockAddr.inet]
  rw [hout]
  constructor
  · intro htarget
    rcases Machine.none_or_last (fun e => ∃ m, e = UdpCall.send m) pre with
      hnone | ⟨before, _, between, rfl, ⟨earlier, rfl⟩, hbetween⟩
    · right
      have hno : ∀ e ∈ pre, ∀ m, e ≠ .send m := fun e he m heq => hnone e he ⟨m, heq⟩
      exact ⟨hno, by rw [← targetAddr_of_no_send u hno, htarget]⟩
    · left
      have hno : ∀ e ∈ between, ∀ m, e ≠ .send m := fun e he m heq => hbetween e he ⟨m, heq⟩
      rw [targetAddr_after_send u before earlier hno, hreply] at htarget
      exact ⟨before, earlier, between, rfl, hno, htarget⟩
  · rintro (⟨before, earlier, between, rfl, hno, hip⟩ | ⟨hno, htarget⟩)
    · rw [targetAddr_after_send u before earlier hno, hip]
    · rw [targetAddr_of_no_send u hno, htarget]

/-- Client 3 takes over from client 2, and the next telemetry still goes to client 2. -/
theorem transmitted_to_old_client :
    (new none (.inet 0 0) (.inet 0 0) []).heard
      [.arrive ⟨"1".toList, .inet 2 9⟩, .receive, .send ['a'], .arrive ⟨"1".toList, .inet 3 9⟩,
        .receive] =
        some ⟨"1".toList, .inet 3 9⟩ ∧
    (calls (calls.after (new none (.inet 0 0) (.inet 0 0) [])
      [.arrive ⟨"1".toList, .inet 2 9⟩, .receive, .send ['a'], .arrive ⟨"1".toList, .inet 3 9⟩,
        .receive])
      (.send ['b'])).2 = [(.inet 2 50513, ['b'])] := by
  decide +kernel

/-- The second answer to a client that stays. -/
theorem transmitted_to_client_again :
    (calls (calls.after (new none (.inet 0 0) (.inet 0 0) [])
      [.arrive ⟨"1".toList, .inet 2 9⟩, .receive, .send ['a']]) (.send ['b'])).2 =
        [((new none (.inet 0 0) (.inet 0 0) []).replyTo 2, ['b'])] := by
  apply (transmitted_to_client_iff _ _ _ ⟨"1".toList, .inet 2 9⟩ (by decide +kernel)).mpr
  left
  exact ⟨[.arrive ⟨"1".toList, .inet 2 9⟩, .receive], ['a'], [], rfl, by simp, by decide +kernel⟩

end Udp

end RobotFramework
