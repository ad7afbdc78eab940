import RobotFramework.Lib.Numeral
import RobotFramework.Main.Loop

/-!
# The telemetry message

What the receiving end of the telemetry can make of a datagram. The sender concatenates nine
`key=value` fields with commas and escapes nothing; `decodeTelemetry` splits the message up again,
and that is sound since no printed value holds a comma or an equals sign.
-/

namespace RobotFramework.Main

open Cxx

variable {K : Type}

/-- What a telemetry message reports. -/
structure TelemetryReport (K : Type) where
  state : Text
  voltage : Double K
  found : Bool
  px : Double K
  py : Double K
  radius : Double K
  bearing : Double K
  confidence : Double K
  tsMs : Int

def telemetryKeys : List Text :=
  ["state", "voltage", "ball", "px", "py", "r", "bearing", "conf", "ts_ms"].map String.toList

def keyValue (key value : Text) : Text := key ++ '=' :: value

def flag? (w : Text) : Option Bool :=
  if w = "1".toList then some true else if w = "0".toList then some false else none

/-- The reader of a telemetry message: exactly nine fields, with the nine keys in order. -/
def decodeTelemetry [Field K] (message : Text) : Option (TelemetryReport K) :=
  match (message.splitOn ',').map (·.splitOn '=') with
  | [[k₁, state], [k₂, voltage], [k₃, ball], [k₄, px], [k₅, py], [k₆, r], [k₇, bearing], [k₈, conf],
      [k₉, ts]] =>
    if [k₁, k₂, k₃, k₄, k₅, k₆, k₇, k₈, k₉] = telemetryKeys then do
      return {
        state
        voltage := ← Double.ofText? voltage
        found := ← flag? ball
        px := ← Double.ofText? px
        py := ← Double.ofText? py
        radius := ← Double.ofText? r
        bearing := ← Double.ofText? bearing
        confidence := ← Double.ofText? conf
        tsMs := ← integer? ts }
    else none
  | _ => none

section

variable [Field K] [LinearOrder K] [FloorRing K]

def telemetryValues (msg : TelemetryMsg K) (tsMs : Int) : List Text :=
  ["active".toList, msg.voltage.toText, if msg.obs.found then "1".toList else "0".toList,
    msg.obs.px.toText, msg.obs.py.toText, msg.obs.radius.toText, msg.obs.bearing.toText,
    msg.obs.confidence.toText, intText tsMs]

/-- What a reader is to find in the message: the numbers rounded to six decimals. -/
def telemetryReport (msg : TelemetryMsg K) (tsMs : Int) : TelemetryReport K :=
  { state := "active".toList
    voltage := msg.voltage.round6
    found := msg.obs.found
    px := msg.obs.px.round6
    py := msg.obs.py.round6
    radius := msg.obs.radius.round6
    bearing := msg.obs.bearing.round6
    confidence := msg.obs.confidence.round6
    tsMs }

theorem telemetryText_eq (msg : TelemetryMsg K) (tsMs : Int) :
    telemetryText msg tsMs =
      [','].intercalate (List.zipWith keyValue telemetryKeys (telemetryValues msg tsMs)) := by
  have hstate : "state=active".toList = keyValue "state".toList "active".toList := by decide
  have hvoltage : ",voltage=".toList = ',' :: keyValue "voltage".toList [] := by decide
  have hball : ",ball=".toList = ',' :: keyValue "ball".toList [] := by decide
  have hpx : ",px=".toList = ',' :: keyValue "px".toList [] := by decide
  have hpy : ",py=".toList = ',' :: keyValue "py".toList [] := by decide
  have hr : ",r=".toList = ',' :: keyValue "r".toList [] := by decide
  have hbearing : ",bearing=".toList = ',' :: keyValue "bearing".toList [] := by decide
  have hconf : ",conf=".toList = ',' :: keyValue "conf".toList [] := by decide
  have hts : ",ts_ms=".toList = ',' :: keyValue "ts_ms".toList [] := by decide
  unfold telemetryText
  rw [hstate, hvoltage, hball, hpx, hpy, hr, hbearing, hconf, hts]
  simp only [telemetryKeys, telemetryValues, keyValue, List.map, List.zipWith, List.intercalate,
    List.intersperse, List.flatten_cons, List.flatten_nil, List.append_assoc, List.cons_append,
    List.nil_append, List.append_nil]

/-- The values are digits and the characters of `-`, `.`, `nan`, `inf` and `active`. -/
theorem notMem_telemetryValues {c : Char} (hdigit : c.isDigit = false)
    (hchar : c ∉ "-.nanifactive".toList) {msg : TelemetryMsg K} {tsMs : Int} {value : Text}
    (hvalue : value ∈ telemetryValues msg tsMs) : c ∉ value := by
  have hactive : "active".toList ⊆ "-.nanifactive".toList := by decide
  have hnumber : "-.nanif".toList ⊆ "-.nanifactive".toList := by decide
  have hdouble : ∀ d : Double K, c ∉ d.toText := by
    intro d hmem
    rcases Double.mem_toText hmem with h | h
    · exact absurd h (Bool.eq_false_iff.mp hdigit)
    · exact hchar (hnumber h)
  have hint : c ∉ intText tsMs := by
    intro hmem
    rcases mem_intText hmem with h | rfl
    · exact absurd h (Bool.eq_false_iff.mp hdigit)
    · exact hchar (by decide)
  have hflag : c ∉ (if msg.obs.found then "1".toList else "0".toList) := by
    have hdigits : ∀ d ∈ "01".toList, d.isDigit = true := by decide
    have hsub : (if msg.obs.found then "1".toList else "0".toList) ⊆ "01".toList := by
      cases msg.obs.found <;> decide
    exact fun hmem => absurd (hdigits c (hsub hmem)) (Bool.eq_false_iff.mp hdigit)
  simp only [telemetryValues, List.mem_cons, List.not_mem_nil, or_false] at hvalue
  rcases hvalue with rfl | rfl | rfl | rfl | rfl | rfl | rfl | rfl | rfl
  · exact fun hmem => hchar (hactive hmem)
  · exact hdouble _
  · exact hflag
  · exact hdouble _
  · exact hdouble _
  · exact hdouble _
  · exact hdouble _
  · exact hdouble _
  · exact hint

theorem splitOn_keyValue {key value : Text} (hkey : '=' ∉ key) (hvalue : '=' ∉ value) :
    (keyValue key value).splitOn '=' = [key, value] := by
  rw [keyValue, List.splitOn_append_cons_self_of_not_mem hkey, List.splitOn_eq_singleton hvalue]

/-- The commas stand between the nine fields and nowhere else. -/
theorem splitOn_telemetryText (msg : TelemetryMsg K) (tsMs : Int) :
    (telemetryText msg tsMs).splitOn ',' =
      List.zipWith keyValue telemetryKeys (telemetryValues msg tsMs) := by
  have hkeys : ∀ key ∈ telemetryKeys, ',' ∉ key := by decide
  rw [telemetryText_eq]
  refine List.splitOn_intercalate ',' (fun field hfield => ?_) (by
    simp [telemetryKeys, telemetryValues])
  rw [← List.map_uncurry_zip_eq_zipWith] at hfield
  obtain ⟨⟨key, value⟩, hpair, rfl⟩ := List.mem_map.mp hfield
  obtain ⟨hkey, hvalue⟩ := List.of_mem_zip hpair
  have hcomma : ',' ∉ value := notMem_telemetryValues rfl (by decide) hvalue
  simp [keyValue, hkeys key hkey, hcomma]

/-- Each of them splits into its key and its value. -/
theorem fields_telemetryText (msg : TelemetryMsg K) (tsMs : Int) :
    ((telemetryText msg tsMs).splitOn ',').map (·.splitOn '=') =
      List.zipWith (fun key value => [key, value]) telemetryKeys (telemetryValues msg tsMs) := by
  have hkeys : ∀ key ∈ telemetryKeys, '=' ∉ key := by decide
  rw [splitOn_telemetryText, List.map_zipWith, ← List.map_uncurry_zip_eq_zipWith,
    ← List.map_uncurry_zip_eq_zipWith]
  refine List.map_congr_left fun pair hpair => ?_
  obtain ⟨hkey, hvalue⟩ := List.of_mem_zip hpair
  exact splitOn_keyValue (hkeys _ hkey) (notMem_telemetryValues rfl (by decide) hvalue)

theorem decode_telemetryText (msg : TelemetryMsg K) (tsMs : Int) :
    decodeTelemetry (telemetryText msg tsMs) = some (telemetryReport msg tsMs) := by
  have hflag : flag? (if msg.obs.found then "1".toList else "0".toList) = some msg.obs.found := by
    cases msg.obs.found <;> rfl
  unfold decodeTelemetry
  rw [fields_telemetryText]
  simp only [telemetryKeys, telemetryValues, List.map, List.zipWith, if_true,
    Double.ofText?_toText, hflag, integer?_intText]
  rfl

/-- A sender step that is due transmits the telemetry message of its state, and no step transmits
anything else. -/
theorem sendTo_mem_sender {cfg : Config K} {s : State K} {target : SockAddr} {message : Text} :
    Effect.sendTo target message ∈ (sender cfg s).2 ↔
      s.due (·.lastSenderTime) cfg.intervals.sender = true ∧ target = s.udp.targetAddr ∧
        message = telemetryText s.senderMsg (s.currentTime.tdiv 1000000) := by
  by_cases hdue : s.due (·.lastSenderTime) cfg.intervals.sender = true
  · have hsent : (sender cfg s).2 =
        [logSub "sender".toList (telemetryText s.senderMsg (s.currentTime.tdiv 1000000)) .INFO,
          .sendTo s.udp.targetAddr
            (telemetryText s.senderMsg (s.currentTime.tdiv 1000000))] :=
      congrArg Prod.snd (if_pos hdue)
    simp [hsent, logSub, hdue]
  · have hsent : (sender cfg s).2 = [] := congrArg Prod.snd (if_neg hdue)
    simp [hsent, hdue]

/-- **The telemetry message is uniquely decodable.** A message has exactly the nine fields, in
order; a reader finds in it all that was reported, numbers to six decimals; equal messages report the
same; and what the sender step transmits, when it is due, is the message of its state. -/
theorem telemetry_uniquely_decodable (msg : TelemetryMsg K) (tsMs : Int) :
    (telemetryText msg tsMs).splitOn ',' =
      List.zipWith keyValue telemetryKeys (telemetryValues msg tsMs) ∧
    ((telemetryText msg tsMs).splitOn ',').map (·.splitOn '=') =
      List.zipWith (fun key value => [key, value]) telemetryKeys (telemetryValues msg tsMs) ∧
    (telemetryValues msg tsMs).length = telemetryKeys.length ∧
    decodeTelemetry (telemetryText msg tsMs) = some (telemetryReport msg tsMs) ∧
    (∀ (msg' : TelemetryMsg K) (tsMs' : Int), telemetryText msg' tsMs' = telemetryText msg tsMs →
      telemetryReport msg' tsMs' = telemetryReport msg tsMs) ∧
    ∀ (cfg : Config K) (s : State K) (target : SockAddr) (message : Text),
      Effect.sendTo target message ∈ (sender cfg s).2 ↔
        s.due (·.lastSenderTime) cfg.intervals.sender = true ∧ target = s.udp.targetAddr ∧
          message = telemetryText s.senderMsg (s.currentTime.tdiv 1000000) := by
  refine ⟨splitOn_telemetryText msg tsMs, fields_telemetryText msg tsMs, rfl,
    decode_telemetryText msg tsMs, fun msg' tsMs' h => ?_, fun cfg s target message =>
    sendTo_mem_sender⟩
  have hdecode := decode_telemetryText msg' tsMs'
  rw [h, decode_telemetryText] at hdecode
  exact (Option.some.inj hdecode).symm

end

end RobotFramework.Main
