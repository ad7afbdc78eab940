import RobotFramework.Arduino.Host
import RobotFramework.Lib.Reactive

/-!
# The connection over many calls

`class Arduino` keeps its own `is_connected` beside the state of the serial port. The object is
followed through any sequence of its calls, with any choice of the serial calls that throw. (`Close`
succeeds.)

The `catch` of `connect` clears the flag and leaves the port as it is. A call that is cut behind
`Open` therefore leaves an open port that `disconnect` does not close, since the flag is clear, and
that no `Open` can open again: `wellBehaved_iff` says that this is the only way to lose the
connection for good.
-/

namespace RobotFramework

open Cxx Reactive

namespace Arduino

/-- The calls into LibSerial by which `connect` opens a port, in order. -/
inductive SerialCall where
  | openPort
  | setBaudRate
  | setCharacterSize
  | setStopBits
  | setParity
  | setFlowControl
  | flushIOBuffers
deriving DecidableEq

/-- Those behind `Open`. -/
def configuration : List SerialCall :=
  [.setBaudRate, .setCharacterSize, .setStopBits, .setParity, .setFlowControl, .flushIOBuffers]

def outcome (throws : SerialCall → Bool) : ConnectOutcome :=
  { closes := true
    opens := !throws .openPort
    configures := configuration.all fun call => !throws call }

/-- `connect` is cut by an exception behind `Open`. -/
def cut (throws : SerialCall → Bool) : Bool :=
  !throws .openPort && configuration.any throws

inductive Call where
  | findArduino (present testPort : Text → Bool) (throws : SerialCall → Bool)
  | connect (port : Text) (throws : SerialCall → Bool)
  | disconnect
  | sendCommand (command : Char) (o : WriteOutcome)

/-- The public calls of the class, with what they return. -/
def calls : Machine Arduino Call Bool
  | a, .findArduino present testPort throws =>
    let (a', found) := a.findArduino present testPort (outcome throws)
    (a', [found])
  | a, .connect port throws =>
    let (a', connected) := a.connect port (outcome throws)
    (a', [connected])
  | a, .disconnect => (a.disconnect true, [])
  | a, .sendCommand command o => (a, [(a.sendCommand command o).1])

/-- The `connect` that a call comes to, if any: the port and which serial calls throw. -/
def Call.connects : Call → Option (Text × (SerialCall → Bool))
  | .findArduino present testPort throws =>
    (ports.find? fun port => present port && testPort port).map fun port => (port, throws)
  | .connect port throws => some (port, throws)
  | _ => none

def Call.cut (call : Call) : Bool := call.connects.any fun c => Arduino.cut c.2

/-! ## What a run is to keep -/

def getPort (a : Arduino) : Text := a.connectedPort

structure Consistent (a : Arduino) : Prop where
  isConnected_iff : a.isConnected = true ↔ a.serialOpen = true
  getPort_eq : a.isConnected = false → a.getPort = []

/-- After each call the flag is the port's state and an unconnected object names no port; a failed
`connect` leaves the port closed; and the next `connect` works if no serial call throws. -/
structure WellBehaved (es : List Call) : Prop where
  consistent : ∀ pre post, es = pre ++ post → Consistent (calls.after new pre)
  closed : ∀ pre call post, es = pre ++ call :: post → call.connects ≠ none →
    (calls (calls.after new pre) call).2 = [false] →
      (calls.after new (pre ++ [call])).serialOpen = false
  reconnects : ∀ pre post port, es = pre ++ post →
    ((calls.after new pre).connect port (outcome fun _ => false)).2 = true

/-! ## One call -/

theorem configures_eq (throws : SerialCall → Bool) :
    (outcome throws).configures = !configuration.any throws := by
  unfold outcome
  rw [List.not_any_eq_all_not]

theorem consistent_new : Consistent new := ⟨by decide, fun _ => rfl⟩

theorem serialOpen_disconnect {a : Arduino} (h : Consistent a) :
    (a.disconnect true).serialOpen = false := by
  unfold disconnect
  by_cases hconn : a.isConnected = true
  · simp [hconn, h.isConnected_iff.mp hconn]
  · have hclosed : a.serialOpen ≠ true := fun hopen => hconn (h.isConnected_iff.mpr hopen)
    simp [hclosed]

theorem consistent_disconnect {a : Arduino} (h : Consistent a) :
    Consistent (a.disconnect true) := by
  refine ⟨?_, fun _ => rfl⟩
  rw [serialOpen_disconnect h]
  exact Iff.rfl

/-- What `connect` does to a consistent object: whatever was open is closed first, so that the port
is left open if `Open` does not throw, and connected if nothing does. -/
theorem connect_of_consistent {a : Arduino} (h : Consistent a) (port : Text)
    (throws : SerialCall → Bool) :
    (a.connect port (outcome throws)).1.serialOpen = !throws .openPort ∧
      (a.connect port (outcome throws)).1.isConnected =
        (!throws .openPort && !configuration.any throws) ∧
      ((a.connect port (outcome throws)).1.isConnected = false →
        (a.connect port (outcome throws)).1.connectedPort = []) ∧
      (a.connect port (outcome throws)).2 = (a.connect port (outcome throws)).1.isConnected := by
  obtain ⟨b, hb, hclosed, hport⟩ : ∃ b : Arduino,
      (if a.isConnected = true then a.disconnect (outcome throws).closes else a) = b ∧
        b.serialOpen = false ∧ b.connectedPort = [] := by
    by_cases hconn : a.isConnected = true
    · exact ⟨_, if_pos hconn, serialOpen_disconnect h, rfl⟩
    · have hconn' : a.isConnected = false := Bool.eq_false_of_not_eq_true hconn
      have hopen : a.serialOpen ≠ true := fun hopen => hconn (h.isConnected_iff.mpr hopen)
      exact ⟨_, if_neg hconn, Bool.eq_false_of_not_eq_true hopen, h.getPort_eq hconn'⟩
  simp only [connect, hb, hclosed, configures_eq]
  cases hthrow : throws .openPort
  · cases hany : configuration.any throws <;> simp [outcome, hthrow, hport]
  · simp [outcome, hthrow, hport]

theorem calls_of_connects (a : Arduino) {call : Call} {port : Text} {throws : SerialCall → Bool}
    (h : call.connects = some (port, throws)) :
    (calls a call).1 = (a.connect port (outcome throws)).1 ∧
      (calls a call).2 = [(a.connect port (outcome throws)).2] := by
  cases call with
  | connect port' throws' =>
    obtain ⟨rfl, rfl⟩ := Prod.mk.inj (Option.some.inj h)
    exact ⟨rfl, rfl⟩
  | findArduino present testPort throws' =>
    unfold Call.connects at h
    obtain ⟨port', hfind, heq⟩ := Option.map_eq_some_iff.mp h
    obtain ⟨rfl, rfl⟩ := Prod.mk.inj heq
    simp only [calls, findArduino, hfind]
    exact ⟨trivial, trivial⟩
  | disconnect => cases h
  | sendCommand command o => cases h

theorem consistent_of_connects_eq_none {a : Arduino} (ha : Consistent a) {call : Call}
    (h : call.connects = none) : Consistent (calls a call).1 := by
  cases call with
  | connect port throws => cases h
  | findArduino present testPort throws =>
    unfold Call.connects at h
    simp only [calls, findArduino, Option.map_eq_none_iff.mp h]
    exact ha
  | disconnect => exact consistent_disconnect ha
  | sendCommand command o => exact ha

/-- Flag and port come to differ if the call is cut, and not otherwise. -/
theorem not_cut_iff (throws : SerialCall → Bool) :
    cut throws = false ↔
      ((!throws .openPort && !configuration.any throws) = true ↔ (!throws .openPort) = true) := by
  unfold cut
  cases throws .openPort
  · cases configuration.any throws <;> simp
  · simp

/-- **A consistent object stays so, except by a call that is cut.** -/
theorem consistent_call_iff {a : Arduino} (ha : Consistent a) (call : Call) :
    Consistent (calls a call).1 ↔ call.cut = false := by
  cases hconn : call.connects with
  | none =>
    have hcut : call.cut = false := by rw [Call.cut, hconn]; rfl
    exact iff_of_true (consistent_of_connects_eq_none ha hconn) hcut
  | some c =>
    obtain ⟨port, throws⟩ := c
    have hcut : call.cut = cut throws := by rw [Call.cut, hconn]; rfl
    obtain ⟨hserial, hconnected, hport, -⟩ := connect_of_consistent ha port throws
    rw [(calls_of_connects a hconn).1, hcut, not_cut_iff, ← hconnected, ← hserial]
    constructor
    · intro h
      exact h.isConnected_iff
    · intro hiff
      exact ⟨hiff, hport⟩

/-! ## Runs -/

theorem consistent_after {es : List Call} (h : ∀ call ∈ es, call.cut = false) :
    Consistent (calls.after new es) := by
  induction es using List.reverseRecOn with
  | nil => exact consistent_new
  | append_singleton es call ih =>
    have hes := ih fun c hc => h c (List.mem_append_left _ hc)
    rw [Machine.after_snoc, consistent_call_iff hes]
    exact h call (List.mem_append_right _ (List.mem_singleton_self _))

/-- **The connection is consistent and recoverable** in exactly the runs none of whose calls is cut
by an exception between `Open` and the end of the configuration. -/
theorem wellBehaved_iff (es : List Call) : WellBehaved es ↔ ∀ call ∈ es, call.cut = false := by
  constructor
  · intro hrun call hcall
    obtain ⟨pre, post, rfl⟩ := List.append_of_mem hcall
    have hbefore := hrun.consistent pre (call :: post) rfl
    have hafter := hrun.consistent (pre ++ [call]) post (by simp)
    rw [Machine.after_snoc] at hafter
    exact (consistent_call_iff hbefore call).mp hafter
  · intro hcut
    have hpre : ∀ pre post, es = pre ++ post → Consistent (calls.after new pre) := by
      rintro pre post rfl
      exact consistent_after fun call hcall => hcut call (List.mem_append_left _ hcall)
    refine ⟨hpre, ?_, ?_⟩
    · intro pre call post hes hconnects hfailed
      obtain ⟨⟨port, throws⟩, hconn⟩ := Option.ne_none_iff_exists'.mp hconnects
      obtain ⟨hstate, hret⟩ := calls_of_connects (calls.after new pre) hconn
      obtain ⟨-, -, -, hresult⟩ := connect_of_consistent (hpre pre _ hes) port throws
      -- What failed is not connected, and where the flag is clear the port is closed.
      have hflag : (calls.after new (pre ++ [call])).isConnected = false := by
        rw [hret] at hfailed
        rw [Machine.after_snoc, hstate, ← hresult]
        exact (List.cons.inj hfailed).1
      have hconsistent := hpre (pre ++ [call]) post (by simp [hes])
      refine Bool.eq_false_of_not_eq_true fun hopen => ?_
      rw [hconsistent.isConnected_iff.mpr hopen] at hflag
      cases hflag
    · intro pre post port hes
      obtain ⟨-, hconnected, -, hresult⟩ :=
        connect_of_consistent (hpre pre post hes) port fun _ => false
      rw [hresult, hconnected]
      rfl

/-- `SetParity` throws once, and the port can never be opened again. -/
theorem cut_connect_is_final :
    let port := "/dev/ttyUSB0".toList
    let a := calls.after new [.connect port fun call => call = .setParity]
    a.isConnected = false ∧ a.serialOpen = true ∧
      ((a.disconnect true).connect port (outcome fun _ => false)).2 = false := by
  decide

end Arduino

end RobotFramework
