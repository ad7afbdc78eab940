import RobotFramework.Lib.Stream

/-!
# `Networks/UDP.cpp`: the socket

`receive` drains the receive queue of the socket and hands the main loop **only the newest**
datagram, cut to the buffer: the older ones, whatever they said, are gone (`receive_newest`). An
empty queue is reported as the text `TIMEOUT`.

The receive queue belongs to the kernel and grows by itself (`arrive`); it is kept here, next to the
members of `class UDP`.
-/

namespace RobotFramework

open Cxx

/-- `struct sockaddr_in` -/
structure SockAddr where
  family : BitVec 16
  port : BitVec 16
  ip : BitVec 32
deriving DecidableEq

/-- An address with `AF_INET` in it, which `recvfrom` fills in and `send` sets. -/
def SockAddr.inet (ip : BitVec 32) (port : BitVec 16) : SockAddr := { family := 2, port, ip }

structure Datagram where
  payload : Text
  source : SockAddr
deriving DecidableEq

/-- `class UDP`, with the receive queue of its socket. `bufferSize` comes from the configuration and
the buffer is resized to it once. -/
structure Udp where
  bufferSize : Nat
  receiverPort : Int
  senderPort : Int
  buffer : Text
  msgFound : Bool
  clientAddr : SockAddr
  targetAddr : SockAddr
  queue : List Datagram
  bufferSize_pos : 0 < bufferSize
  length_buffer : buffer.length = bufferSize

structure NetworkConfig where
  bufferSize : Nat
  receiverPort : Int
  senderPort : Int
  bufferSize_pos : 0 < bufferSize

namespace Udp

/-- `UDP::UDP`: the configuration, or the fallback when it cannot be loaded. The two addresses are
not initialised, so they are whatever the memory held. -/
def new (config : Option NetworkConfig) (clientAddr targetAddr : SockAddr)
    (pending : List Datagram) : Udp :=
  let network := config.getD
    { bufferSize := 1024, receiverPort := 50514, senderPort := 50513, bufferSize_pos := by decide }
  { bufferSize := network.bufferSize
    receiverPort := network.receiverPort
    senderPort := network.senderPort
    buffer := List.replicate network.bufferSize '\x00'
    msgFound := false
    clientAddr
    targetAddr
    queue := pending
    bufferSize_pos := network.bufferSize_pos
    length_buffer := List.length_replicate }

def arrive (u : Udp) (d : Datagram) : Udp := { u with queue := u.queue ++ [d] }

def withBuffer (u : Udp) (buffer : Text) (h : buffer.length = u.buffer.length) : Udp :=
  { u with buffer, length_buffer := h.trans u.length_buffer }

/-- `buffer[i] = c`; none when there is no such place in the buffer. -/
def write? (u : Udp) (i : Nat) (c : Char) : Option Udp :=
  u.buffer[i]?.map fun _ => u.withBuffer (u.buffer.set i c) List.length_set

/-- The copy that `recvfrom` makes into the buffer, byte by byte from place `i` on. -/
def fill? : Udp → Nat → Text → Option Udp
  | u, _, [] => some u
  | u, i, c :: cs => (u.write? i c).bind (fill? · (i + 1) cs)

/-- `recvfrom` told of `len` bytes of room, with a datagram at the head of the queue: what of it is
within `len` goes to the buffer and its source to `client_addr`. -/
def recvfrom? (u : Udp) (len : Nat) (d : Datagram) (q : List Datagram) : Option Udp :=
  (u.fill? 0 (d.payload.take len)).map fun u => { u with clientAddr := d.source, queue := q }

/-- The drain loop of `receive`: until the queue is empty, remembering the length of the last
datagram taken off it. -/
def drain? : List Datagram → Udp → Int → Option (Udp × Int)
  | [], u, lastBytes => some ({ u with queue := [] }, lastBytes)
  | d :: q, u, _ =>
    (u.recvfrom? (u.bufferSize - 1) d q).bind
      (drain? q · (d.payload.take (u.bufferSize - 1)).length)

/-- `std::string(buffer.data(), n)`; none when it would read behind the buffer. -/
def copy? (u : Udp) : Nat → Option Text
  | 0 => some []
  | n + 1 => (u.copy? n).bind fun text => (u.buffer[n]?).map fun c => text ++ [c]

/-- `receive`, every access to the buffer checked: drain all queued packets, keep only the
newest. -/
def receive? (u : Udp) : Option (Udp × Text) :=
  (drain? u.queue u (-1)).bind fun (u, lastBytes) =>
    if lastBytes < 0 then some ({ u with msgFound := false }, "TIMEOUT".toList)
    else
      (u.write? lastBytes.toNat '\x00').bind fun u =>
        (u.copy? lastBytes.toNat).map fun text => ({ u with msgFound := true }, text)

/-- `send`: transmit to `target_addr`, then point it at the client that was heard last. The address
of the transmission is the first component. -/
def send (u : Udp) (message : Text) : (SockAddr × Text) × Udp :=
  ((u.targetAddr, message),
    { u with targetAddr := .inet u.clientAddr.ip (BitVec.ofInt 16 u.senderPort) })

/-! ## The accesses are inside of the buffer -/

/-- What `recvfrom` comes to when it is told of no more room than there is: the first bytes of the
datagram stand at the front of the buffer. -/
def recvfrom (u : Udp) (len : Nat) (h : len ≤ u.bufferSize) (d : Datagram) (q : List Datagram) :
    Udp :=
  { u with
    buffer := d.payload.take len ++ u.buffer.drop (d.payload.take len).length
    clientAddr := d.source
    queue := q
    length_buffer := by
      have := u.length_buffer
      simp only [List.length_append, List.length_drop, List.length_take]
      omega }

theorem write?_of_lt (u : Udp) {i : Nat} (c : Char) (h : i < u.buffer.length) :
    u.write? i c = some (u.withBuffer (u.buffer.set i c) List.length_set) := by
  rw [write?, List.getElem?_eq_getElem h, Option.map_some]

/-- Bytes that fit are copied over the old ones, and nothing else changes. -/
theorem fill?_append (u : Udp) {pre old post cs : Text} (hbuf : u.buffer = pre ++ old ++ post)
    (hlen : old.length = cs.length) :
    ∃ h, u.fill? pre.length cs = some (u.withBuffer (pre ++ cs ++ post) h) := by
  induction cs generalizing u pre old with
  | nil =>
    obtain rfl := List.eq_nil_of_length_eq_zero hlen
    refine ⟨by rw [hbuf], ?_⟩
    simp only [withBuffer, ← hbuf]
    rfl
  | cons c cs ih =>
    obtain ⟨o, old, rfl⟩ := List.exists_cons_of_length_eq_add_one hlen
    have hlt : pre.length < u.buffer.length := by
      simp only [hbuf, List.length_append, List.length_cons]
      omega
    have hset : u.buffer.set pre.length c = (pre ++ [c]) ++ old ++ post := by
      simp [hbuf]
    obtain ⟨h, hfill⟩ := ih (u.withBuffer (u.buffer.set pre.length c) List.length_set) hset
      (Nat.succ.inj hlen)
    have hsplit : pre ++ [c] ++ cs ++ post = pre ++ c :: cs ++ post := by simp
    rw [List.length_append] at hfill
    refine ⟨hsplit ▸ h.trans List.length_set, ?_⟩
    rw [fill?, write?_of_lt u c hlt, Option.bind_some]
    simp only [withBuffer, hsplit] at hfill ⊢
    exact hfill

theorem recvfrom?_of_le (u : Udp) {len : Nat} (h : len ≤ u.bufferSize) (d : Datagram)
    (q : List Datagram) : u.recvfrom? len d q = some (u.recvfrom len h d q) := by
  have hle : (d.payload.take len).length ≤ u.buffer.length := by
    rw [u.length_buffer]
    exact (List.length_take_le _ _).trans h
  have hbuf : u.buffer = [] ++ u.buffer.take (d.payload.take len).length ++
      u.buffer.drop (d.payload.take len).length := (List.take_append_drop _ _).symm
  obtain ⟨hlen, hfill⟩ := u.fill?_append hbuf (List.length_take_of_le hle)
  change u.fill? 0 _ = _ at hfill
  rw [recvfrom?, hfill]
  rfl

theorem copy?_of_le (u : Udp) {n : Nat} (h : n ≤ u.buffer.length) :
    u.copy? n = some (u.buffer.take n) := by
  induction n with
  | zero => rfl
  | succ n ih =>
    rw [copy?, ih (Nat.le_of_succ_le h), Option.bind_some, List.getElem?_eq_getElem h,
      Option.map_some, List.take_succ_eq_append_getElem h]

/-- What the drain loop comes to. -/
def drain : List Datagram → Udp → Int → Udp × Int
  | [], u, lastBytes => ({ u with queue := [] }, lastBytes)
  | d :: q, u, _ =>
    drain q (u.recvfrom (u.bufferSize - 1) (Nat.sub_le _ _) d q)
      (d.payload.take (u.bufferSize - 1)).length

theorem drain?_eq_some (q : List Datagram) (u : Udp) (n : Int) :
    drain? q u n = some (drain q u n) := by
  induction q generalizing u n with
  | nil => rfl
  | cons d q ih =>
    rw [drain?, u.recvfrom?_of_le (Nat.sub_le _ _), Option.bind_some, ih]
    rfl

/-- The text a datagram reaches the main loop as: at most `buffer_size - 1` bytes of it. -/
def received (u : Udp) (d : Datagram) : Text := d.payload.take (u.bufferSize - 1)

/-- `recvfrom` is told of one byte less than the buffer has, which leaves room for the
terminator. -/
theorem length_received_lt (u : Udp) (d : Datagram) : (u.received d).length < u.buffer.length := by
  have hbuf := u.length_buffer
  have hpos := u.bufferSize_pos
  simp only [received, List.length_take]
  omega

@[simp] theorem bufferSize_drain (q : List Datagram) (u : Udp) (n : Int) :
    (drain q u n).1.bufferSize = u.bufferSize := by
  induction q generalizing u n with
  | nil => rfl
  | cons d q ih => rw [drain, ih]; rfl

/-- What the drain loop leaves behind when it took something off the queue: the newest datagram at
the front of the buffer, its length and its source. -/
theorem drain_snoc (q : List Datagram) (d : Datagram) (u : Udp) (n : Int) :
    (drain (q ++ [d]) u n).2 = (u.received d).length ∧
      (drain (q ++ [d]) u n).1.buffer.take (u.received d).length = u.received d ∧
      (drain (q ++ [d]) u n).1.clientAddr = d.source ∧
      (drain (q ++ [d]) u n).1.queue = [] := by
  induction q generalizing u n with
  | nil =>
    refine ⟨rfl, ?_, rfl, rfl⟩
    show (d.payload.take (u.bufferSize - 1) ++ _).take _ = _
    exact List.take_left
  | cons e q ih => exact ih _ _

theorem ports_drain (q : List Datagram) (u : Udp) (n : Int) :
    (drain q u n).1.targetAddr = u.targetAddr ∧ (drain q u n).1.senderPort = u.senderPort := by
  induction q generalizing u n with
  | nil => exact ⟨rfl, rfl⟩
  | cons d q ih => exact ih _ _

/-- With an empty queue nothing is accessed. -/
theorem receive?_nil (u : Udp) (hq : u.queue = []) :
    u.receive? = some ({ u with msgFound := false, queue := [] }, "TIMEOUT".toList) := by
  rw [receive?, hq]
  rfl

/-- With a datagram pending all accesses succeed: `recvfrom` leaves a byte for the terminator, and
the text is read in front of it. -/
theorem receive?_snoc (u : Udp) (q : List Datagram) (d : Datagram) (hq : u.queue = q ++ [d]) :
    ∃ v, u.receive? = some (v, u.received d) ∧ v.queue = [] ∧ v.msgFound = true ∧
      v.clientAddr = d.source ∧ v.bufferSize = u.bufferSize ∧ v.targetAddr = u.targetAddr ∧
      v.senderPort = u.senderPort := by
  obtain ⟨hlast, hbuf, hclient, hqueue⟩ := drain_snoc q d u (-1)
  obtain ⟨htarget, hport⟩ := ports_drain (q ++ [d]) u (-1)
  have hsize := bufferSize_drain (q ++ [d]) u (-1)
  have hdrain := drain?_eq_some (q ++ [d]) u (-1)
  generalize drain (q ++ [d]) u (-1) = r at *
  obtain ⟨v, lastBytes⟩ := r
  obtain rfl : lastBytes = (u.received d).length := hlast
  have hlt : (u.received d).length < v.buffer.length := by
    rw [v.length_buffer, show v.bufferSize = u.bufferSize from hsize, ← u.length_buffer]
    exact u.length_received_lt d
  have hnonneg : ¬ (((u.received d).length : Int) < 0) := by omega
  have hcopy : (v.withBuffer (v.buffer.set (u.received d).length '\x00') List.length_set).copy?
      (u.received d).length = some (u.received d) := by
    rw [copy?_of_le _ (by simpa [withBuffer] using hlt.le)]
    simpa [withBuffer, List.take_set_of_le] using hbuf
  refine ⟨{ v.withBuffer (v.buffer.set (u.received d).length '\x00') List.length_set with
    msgFound := true }, ?_, hqueue, rfl, hclient, hsize, htarget, hport⟩
  rw [receive?, hq, hdrain, Option.bind_some]
  simp only [hnonneg, if_false, Int.toNat_natCast, write?_of_lt v _ hlt, Option.bind_some, hcopy,
    Option.map_some]

theorem receive?_isSome (u : Udp) : u.receive?.isSome := by
  rcases List.eq_nil_or_concat u.queue with hq | ⟨q, d, hq⟩
  · rw [receive?_nil u hq]
    rfl
  · rw [List.concat_eq_append] at hq
    obtain ⟨v, hv, -⟩ := receive?_snoc u q d hq
    rw [hv]
    rfl

/-- `receive`, whose accesses are all inside of the buffer. -/
def receive (u : Udp) : Udp × Text := u.receive?.get u.receive?_isSome

/-! ## What a poll returns -/

def poll (u : Udp) : Text :=
  match u.queue.getLast? with
  | none => "TIMEOUT".toList
  | some d => u.received d

theorem receive_eq_of {u : Udp} {r : Udp × Text} (h : u.receive? = some r) : u.receive = r :=
  Option.get_of_eq_some _ h

theorem receive_empty (u : Udp) (hq : u.queue = []) :
    u.receive.2 = "TIMEOUT".toList ∧ u.receive.1.queue = [] := by
  rw [receive_eq_of (receive?_nil u hq)]
  exact ⟨rfl, rfl⟩

/-- **`receive` keeps only the newest datagram.** -/
theorem receive_newest (u : Udp) (q : List Datagram) (d : Datagram) (hq : u.queue = q ++ [d]) :
    u.receive.2 = u.received d ∧ u.receive.1.queue = [] := by
  obtain ⟨v, hv, hqueue, -⟩ := receive?_snoc u q d hq
  rw [receive_eq_of hv]
  exact ⟨rfl, hqueue⟩

/-- A poll returns the newest datagram of the queue and forgets the others. -/
theorem receive_eq_poll (u : Udp) : u.receive.2 = u.poll ∧ u.receive.1.queue = [] := by
  rcases List.eq_nil_or_concat u.queue with hq | ⟨q, d, hq⟩
  · have := receive_empty u hq
    simpa [poll, hq] using this
  · rw [List.concat_eq_append] at hq
    have := receive_newest u q d hq
    simpa [poll, hq] using this

/-- `receive` does not touch the configuration, nor what `send` goes by. -/
theorem ports_receive (u : Udp) :
    u.receive.1.bufferSize = u.bufferSize ∧ u.receive.1.targetAddr = u.targetAddr ∧
      u.receive.1.senderPort = u.senderPort := by
  rcases List.eq_nil_or_concat u.queue with hq | ⟨q, d, hq⟩
  · rw [receive_eq_of (receive?_nil u hq)]
    exact ⟨rfl, rfl, rfl⟩
  · rw [List.concat_eq_append] at hq
    obtain ⟨v, hv, -, -, -, hsize, htarget, hport⟩ := receive?_snoc u q d hq
    rw [receive_eq_of hv]
    exact ⟨hsize, htarget, hport⟩

@[simp] theorem bufferSize_receive (u : Udp) : u.receive.1.bufferSize = u.bufferSize :=
  u.ports_receive.1

/-- `client_addr` is the source of the newest datagram; a timeout leaves it alone. -/
theorem clientAddr_receive (u : Udp) :
    u.receive.1.clientAddr = (u.queue.getLast?.map Datagram.source).getD u.clientAddr := by
  rcases List.eq_nil_or_concat u.queue with hq | ⟨q, d, hq⟩
  · rw [receive_eq_of (receive?_nil u hq), hq]
    rfl
  · rw [List.concat_eq_append] at hq
    obtain ⟨v, hv, -, -, hclient, -⟩ := receive?_snoc u q d hq
    rw [receive_eq_of hv, hq, List.getLast?_append]
    exact hclient

/-- **What a call of `receive` does**, for every queue and whatever the buffer held: every access
it makes is inside of the buffer, so that it returns; the queue is drained; an empty one is a
timeout that leaves the client alone, otherwise text and client are those of the newest
datagram. -/
theorem receive_exact (u : Udp) :
    ∃ v text, u.receive? = some (v, text) ∧ v.queue = [] ∧
      (u.queue = [] → text = "TIMEOUT".toList ∧ v.msgFound = false ∧ v.clientAddr = u.clientAddr) ∧
      ∀ older newest, u.queue = older ++ [newest] →
        text = newest.payload.take (u.bufferSize - 1) ∧ v.msgFound = true ∧
          v.clientAddr = newest.source := by
  rcases List.eq_nil_or_concat u.queue with hq | ⟨q, d, hq⟩
  · refine ⟨_, _, receive?_nil u hq, rfl, fun _ => ⟨rfl, rfl, rfl⟩, ?_⟩
    intro older newest hcons
    simp [hq] at hcons
  · rw [List.concat_eq_append] at hq
    obtain ⟨v, hv, hqueue, hfound, hclient, -⟩ := receive?_snoc u q d hq
    refine ⟨v, _, hv, hqueue, fun hnil => by simp [hq] at hnil, ?_⟩
    intro older newest hsplit
    obtain ⟨-, hnewest⟩ := List.append_inj' (hq.symm.trans hsplit) rfl
    obtain rfl := List.head_eq_of_cons_eq hnewest
    exact ⟨rfl, hfound, hclient⟩

/-- A long datagram, then an empty one from another client, into four bytes. -/
theorem receive_exact_two :
    ∃ v, (new (some ⟨4, 0, 0, by decide⟩) (.inet 1 1) (.inet 0 0)
      [⟨"STOPSTOP".toList, .inet 2 2⟩, ⟨[], .inet 3 3⟩]).receive? = some (v, []) ∧
      v.queue = [] ∧ v.clientAddr = .inet 3 3 := by
  obtain ⟨v, text, hreceive, hqueue, -, hnewest⟩ :=
    receive_exact (new (some ⟨4, 0, 0, by decide⟩) (.inet 1 1) (.inet 0 0)
      [⟨"STOPSTOP".toList, .inet 2 2⟩, ⟨[], .inet 3 3⟩])
  obtain ⟨rfl, -, hclient⟩ := hnewest [⟨"STOPSTOP".toList, .inet 2 2⟩] ⟨[], .inet 3 3⟩ rfl
  exact ⟨v, hreceive, hqueue, hclient⟩

end Udp

end RobotFramework
