/-!
# `mjbots/moteus/moteus_multiplex.h`: register framing

A request names the registers it wants in runs of neighbours that share a resolution.
`WriteCombiner` finds the runs: it is given one resolution per register, walks over them with
`MaybeWrite`, and writes a header wherever a new run begins. What a controller is asked for is
therefore not the list of resolutions but what can be read back from those bytes
(`requested`, the device's side of the protocol, which mirrors `MultiplexParser::next`).
-/

namespace Moteus

inductive Resolution where
  | kInt8
  | kInt16
  | kInt32
  | kFloat
  | kIgnore
deriving DecidableEq

namespace Resolution

/-- The offset a resolution adds to a command byte. -/
def code : Resolution → UInt8
  | kInt8 => 0x00
  | kInt16 => 0x04
  | kInt32 => 0x08
  | kFloat => 0x0c
  | kIgnore => 0x00

def ofCode (cmd : UInt8) : Resolution :=
  match ((cmd >>> 2) &&& 0x03).toNat with
  | 0 => kInt8
  | 1 => kInt16
  | 2 => kInt32
  | _ => kFloat

end Resolution

/-- `WriteVaruint`: seven bits a byte, least significant first, in at most as many bytes as given (a
`uint32_t` takes five). -/
def writeVaruint : Nat → Nat → List UInt8
  | 0, _ => []
  | bytes + 1, value =>
    if value / 128 = 0 then [UInt8.ofNat (value % 128)]
    else UInt8.ofNat (value % 128 + 128) :: writeVaruint bytes (value / 128)

/-- `ReadVaruint`: the value of at most so many bytes, and what stands behind it. -/
def readVaruint : Nat → List UInt8 → Nat × List UInt8
  | 0, bs => (0, bs)
  | _, [] => (0, [])
  | bytes + 1, b :: bs =>
    if b &&& 0x80 = 0 then ((b &&& 0x7f).toNat, bs)
    else
      let (value, rest) := readVaruint bytes bs
      ((b &&& 0x7f).toNat + 128 * value, rest)

/-- `WriteCombiner`, driven over all its resolutions by `MaybeWrite`: the headers it writes.
`current` is the resolution of the run it is in, `register` the register it has come to. -/
def writeCombiner (baseCommand : UInt8) : Resolution → Nat → List Resolution → List UInt8
  | _, _, [] => []
  | current, register, new :: rest =>
    if new = current then writeCombiner baseCommand current (register + 1) rest
    else if new = .kIgnore then writeCombiner baseCommand .kIgnore (register + 1) rest
    else
      -- How far ahead the new resolution goes.
      let count := 1 + (rest.takeWhile (· = new)).length
      let writeCommand := baseCommand + new.code
      (if count ≤ 3 then [writeCommand + UInt8.ofNat count]
        else [writeCommand, UInt8.ofNat count]) ++
        writeVaruint 5 register ++ writeCombiner baseCommand new (register + 1) rest

/-- The read headers for a block of registers. -/
def readHeaders (startRegister : Nat) (resolutions : List Resolution) : List UInt8 :=
  writeCombiner 0x10 .kIgnore startRegister resolutions

/-- The registers a request asks for, read back from its bytes with `fuel` for the number of
headers. Anything that is no read header ends the request. -/
def requestedWithin : Nat → List UInt8 → List (Nat × Resolution)
  | 0, _ => []
  | _, [] => []
  | fuel + 1, cmd :: bytes =>
    if 0x10 ≤ cmd ∧ cmd < 0x20 then
      let (count, bytes) : Nat × List UInt8 :=
        if cmd &&& 0x03 = 0 then
          match bytes with
          | [] => (0, [])
          | n :: bytes => (n.toNat, bytes)
        else ((cmd &&& 0x03).toNat, bytes)
      let (register, bytes) := readVaruint 5 bytes
      (List.range count).map (fun i => (register + i, Resolution.ofCode cmd)) ++
        requestedWithin fuel bytes
    else []

def requested (bytes : List UInt8) : List (Nat × Resolution) :=
  requestedWithin bytes.length bytes

end Moteus
