import Mathlib.Data.List.DropRight
import RobotFramework.Lib.Checksum
import RobotFramework.Lib.Hex
import RobotFramework.Lib.Lines
import RobotFramework.Lib.Reactive

/-!
# `mjbots/moteus/moteus_transport.h`: the lines of an fdcanusb

Frames go to the adapter, and come from it, as lines of text over a serial port. What `read` returns
is collected in a buffer, and every line that has got its end is taken off and looked at: `OK` for a
line that was sent, `rcv` with a frame. Lines may carry a checksum; once the adapter has complained
about one that is missing, they must.

The loop over the buffer takes off **the lines of the text** (`consumeLines_eq`), so that it makes no
difference how they are spread over the reads.
-/

namespace Fdcanusb

abbrev Bytes := List UInt8

def ascii (text : String) : Bytes := text.toList.map fun c => UInt8.ofNat c.toNat

def space : UInt8 := 0x20

def star : UInt8 := 0x2a

/-! ## Checksums -/

def kCrc8Table : List UInt8 :=
  [0x00, 0x97, 0xb9, 0x2e, 0xe5, 0x72, 0x5c, 0xcb,
    0x5d, 0xca, 0xe4, 0x73, 0xb8, 0x2f, 0x01, 0x96]

/-- Half a byte. -/
def crc8Nybble (crc b : UInt8) : UInt8 :=
  kCrc8Table.getD (((crc >>> 4) ^^^ b) &&& 0x0f).toNat 0 ^^^ (crc <<< 4)

def crc8Byte (crc b : UInt8) : UInt8 := crc8Nybble (crc8Nybble crc (b >>> 4)) (b &&& 0x0f)

/-- `ComputeCrc8` -/
def computeCrc8 (data : Bytes) : UInt8 := data.foldl crc8Byte 0

/-! ## Words -/

/-- `ParseHexByte`, as it is stored in a `uint8_t`. -/
def parseHexByte (hi lo : UInt8) : UInt8 :=
  match Hex.value? hi, Hex.value? lo with
  | some hi, some lo => UInt8.ofNat (hi * 16 + lo)
  | _, _ => 0xff

def parsePairs : Bytes → List UInt8
  | hi :: lo :: data => parseHexByte hi lo :: parsePairs data
  | _ => []

/-- `ParseCanData`. An odd digit at the end is behind the size that is returned. -/
def parseCanData (data : Bytes) : List UInt8 := parsePairs (data.take (64 * 2))

/-- `isspace` -/
def isSpace (c : UInt8) : Bool := c = space ∨ (0x09 ≤ c ∧ c ≤ 0x0d)

def takeSign : Bytes → Bool × Bytes
  | 0x2d :: text => (true, text)
  | 0x2b :: text => (false, text)
  | text => (false, text)

/-- `0x`, if a digit stands behind it. -/
def dropBase : Bytes → Bytes
  | 0x30 :: x :: c :: text =>
    if (x = 0x78 ∨ x = 0x58) ∧ Hex.isDigit c then c :: text else 0x30 :: x :: c :: text
  | text => text

/-- `std::stoul` with base 16, which throws where this is `none`. -/
def stoul16 (text : Bytes) : Option Nat :=
  let (negative, text) := takeSign (text.dropWhile isSpace)
  let digits := (dropBase text).takeWhile Hex.isDigit
  if digits = [] ∨ 2 ^ 64 ≤ Hex.value digits then none
  else if negative then some ((2 ^ 64 - Hex.value digits) % 2 ^ 64)
  else some (Hex.value digits)

/-- `strchr(" ", c)`, which finds the end of its string, too. -/
def isDelimiter (c : UInt8) : Bool := c = space ∨ c = 0

/-- What `Tokenizer::next` returns the n-th time: the next word, empty behind the last one. -/
def token (line : Bytes) (n : Nat) : Bytes := (line.splitOnP isDelimiter).getD n []

/-! ## Frames -/

/-- `CanFdFrame::Toggle` -/
inductive Toggle where
  | kDefault
  | kForceOff
  | kForceOn
deriving DecidableEq

/-- `CanFdFrame`, as far as it goes over the line. -/
structure Frame where
  arbitrationId : BitVec 32
  data : List UInt8
  brs : Toggle := .kDefault
  fdcanFrame : Toggle := .kDefault
deriving DecidableEq

namespace Frame

/-! What is read off the number of a frame that came in. -/

def source (frame : Frame) : Nat := ((frame.arbitrationId >>> 8) &&& 0x7f).toNat

def setFlag (frame : Frame) (flag : Bytes) : Frame :=
  if flag = ascii "b" then { frame with brs := .kForceOff }
  else if flag = ascii "B" then { frame with brs := .kForceOn }
  else if flag = ascii "f" then { frame with fdcanFrame := .kForceOff }
  else if flag = ascii "F" then { frame with fdcanFrame := .kForceOn }
  else frame

end Frame

/-! ## One line -/

/-- What a line adds to the counts of a cycle, and to its replies. -/
inductive Event where
  | ok
  | frame (frame : Frame)
deriving DecidableEq

/-- `rfind`: what is in front of the last one, and behind it. -/
def rfind (c : UInt8) : Bytes → Option (Bytes × Bytes)
  | [] => none
  | x :: line =>
    match rfind c line with
    | some (body, tail) => some (x :: body, tail)
    | none => if x = c then some ([], line) else none

/-- The first part of `CHILD_ProcessLine`: what is left of a line behind its check, if it passes. -/
def validate (checksumActive : Bool) (line : Bytes) : Option Bytes :=
  match rfind star line with
  | some (body, hi :: lo :: _) =>
    match Hex.value? hi, Hex.value? lo with
    | some hi, some lo =>
      if UInt8.ofNat (hi * 16 + lo) = computeCrc8 body then some (body.rdropWhile (· = space))
      else none
    | _, _ => some line
  | _ => if checksumActive then none else some line

/-- The last part of `CHILD_ProcessLine`: a frame, if the line has one. It is `none` where the
number of the frame throws, which ends the process. -/
def parseRcv (line : Bytes) : Option (Option Event) :=
  if token line 0 ≠ ascii "rcv" ∨ token line 1 = [] ∨ token line 2 = [] then some none
  else
    (stoul16 (token line 1)).map fun id =>
      let frame : Frame :=
        { arbitrationId := BitVec.ofNat 32 id, data := parseCanData (token line 2) }
      let flags := ((line.splitOnP isDelimiter).drop 3).takeWhile (· ≠ [])
      some (.frame (flags.foldl Frame.setFlag frame))

/-- `CHILD_ProcessLine` -/
def processLine (checksumActive : Bool) (line : Bytes) : Option (Bool × Option Event) :=
  match validate checksumActive line with
  | none => some (checksumActive, none)
  | some line =>
    if line = ascii "OK" then some (checksumActive, some .ok)
    else if ascii "ERR" <+: line then
      some (checksumActive || decide (ascii "checksum" <:+: line), none)
    else (parseRcv line).map fun event => (checksumActive, event)

/-! ## The line buffer -/

def isLineEnd (c : UInt8) : Bool := c = 0x0d ∨ c = 0x0a

/-- The loop of `CHILD_ConsumeLines`, with a bound on its turns. -/
def consumeWithin : Nat → Bool → Bytes → Option (Bool × List Event × Bytes)
  | 0, checksumActive, buffer => some (checksumActive, [], buffer)
  | turns + 1, checksumActive, buffer =>
    match buffer.findIdx? isLineEnd with
    | none => some (checksumActive, [], buffer)
    | some lineEnd =>
      (processLine checksumActive (buffer.take lineEnd)).bind fun (checksumActive, event) =>
        (consumeWithin turns checksumActive (buffer.drop (lineEnd + 1))).map
          fun (checksumActive, events, rest) => (checksumActive, event.toList ++ events, rest)

/-- `CHILD_ConsumeLines`: the checksums, what the lines add, and what stays in the buffer. Every turn
takes a character off at least. -/
def consumeLines (checksumActive : Bool) (buffer : Bytes) :
    Option (Bool × List Event × Bytes) :=
  consumeWithin buffer.length checksumActive buffer

structure Reader where
  checksumActive : Bool
  lineBuffer : Bytes
deriving DecidableEq

/-- `sizeof(line_buffer_)` -/
def lineBufferSize : Nat := 4096

/-- `CHILD_ConsumeData`, of what `read` has returned. -/
def consumeData (reader : Reader) (bytes : Bytes) : Option (Reader × List Event) :=
  (consumeLines reader.checksumActive (reader.lineBuffer ++ bytes)).map
    fun (checksumActive, events, buffer) =>
      ({ checksumActive, lineBuffer := if lineBufferSize ≤ buffer.length then [] else buffer },
        events)

/-! ## What the loop takes off -/

/-- One line after the other. -/
def processLines (checksumActive : Bool) : List Bytes → Option (Bool × List Event)
  | [] => some (checksumActive, [])
  | line :: lines =>
    (processLine checksumActive line).bind fun (checksumActive, event) =>
      (processLines checksumActive lines).map
        fun (checksumActive, events) => (checksumActive, event.toList ++ events)

theorem processLines_cons {checksumActive active : Bool} {line : Bytes} {event : Option Event}
    (h : processLine checksumActive line = some (active, event)) (lines : List Bytes) :
    processLines checksumActive (line :: lines) =
      (processLines active lines).map
        fun (checksumActive, events) => (checksumActive, event.toList ++ events) := by
  rw [processLines, h]
  rfl

theorem processLines_append (checksumActive : Bool) (lines lines' : List Bytes) :
    processLines checksumActive (lines ++ lines') =
      (processLines checksumActive lines).bind fun (checksumActive, events) =>
        (processLines checksumActive lines').map
          fun (checksumActive, events') => (checksumActive, events ++ events') := by
  induction lines generalizing checksumActive with
  | nil => simp [processLines]
  | cons line lines ih =>
    rw [List.cons_append, processLines, processLines]
    cases processLine checksumActive line with
    | none => rfl
    | some result =>
      simp only [Option.bind_some, ih]
      cases processLines result.1 lines with
      | none => rfl
      | some results =>
        simp only [Option.bind_some, Option.map_some]
        cases processLines results.1 lines' with
        | none => rfl
        | some results' => simp

theorem consumeWithin_eq {turns : Nat} (checksumActive : Bool) {buffer : Bytes}
    (hturns : buffer.length ≤ turns) :
    consumeWithin turns checksumActive buffer =
      (processLines checksumActive (Lines.complete isLineEnd buffer).1).map
        fun (checksumActive, events) =>
          (checksumActive, events, (Lines.complete isLineEnd buffer).2) := by
  induction turns generalizing checksumActive buffer with
  | zero =>
    rw [List.length_eq_zero_iff.mp (Nat.le_zero.mp hturns)]
    rfl
  | succ turns ih =>
    rcases Lines.end_cases isLineEnd buffer with hnone | ⟨line, e, rest, rfl, hline, he⟩
    · have hidx : buffer.findIdx? isLineEnd = none := by simpa using hnone
      rw [consumeWithin, hidx, Lines.complete_of_forall hnone]
      rfl
    · have hidx : (line ++ e :: rest).findIdx? isLineEnd = some line.length := by
        have hnone : line.findIdx? isLineEnd = none := by simpa using hline
        rw [List.findIdx?_append, hnone, List.findIdx?_cons, he]
        simp
      have hdrop : (line ++ e :: rest).drop (line.length + 1) = rest := by
        rw [← List.drop_drop, List.drop_left]
        rfl
      have hrest : rest.length ≤ turns := by
        rw [List.length_append, List.length_cons] at hturns
        omega
      rw [consumeWithin, hidx, Lines.complete_record hline he, processLines]
      simp only [List.take_left, hdrop, ih _ hrest]
      cases processLine checksumActive line with
      | none => rfl
      | some result =>
        simp only [Option.bind_some]
        cases processLines result.1 (Lines.complete isLineEnd rest).1 with
        | none => rfl
        | some results => rfl

/-- **The loop takes off the lines of the buffer** and leaves what stands behind them. -/
theorem consumeLines_eq (checksumActive : Bool) (buffer : Bytes) :
    consumeLines checksumActive buffer =
      (processLines checksumActive (Lines.complete isLineEnd buffer).1).map
        fun (checksumActive, events) =>
          (checksumActive, events, (Lines.complete isLineEnd buffer).2) :=
  consumeWithin_eq checksumActive (Nat.le_refl _)

end Fdcanusb
