import VPlc.Bytes.Nibble
import VPlc.Bytes.Wire
import VPlc.Core.Memory
import VPlc.Net.Session

/-!
# The MC server

One command reads a run of points of a device, another writes it, each in units
of words or of bits. The head device number has three bytes, and the loops
narrow it to sixteen bits at every point, as the source does: `pointIndex`. The
store does the rest, dropping what falls outside the device.
-/

namespace VPlc

open Bytes (flagAt leBytes le16 le24 packFlags)

namespace McServer

def getMCWordAreaName (code : UInt8) : String :=
  if code = 0xA8 then "D"
  else if code = 0xB4 then "W"
  else if code = 0xAF then "R"
  else if code = 0xB0 then "ZR"
  else if code = 0xA9 then "SD"
  else ""

def getMCBitAreaName (code : UInt8) : String :=
  if code = 0x9C then "X"
  else if code = 0x9D then "Y"
  else if code = 0x90 then "M"
  else if code = 0x92 then "L"
  else if code = 0xA0 then "B"
  else if code = 0x93 then "F"
  else if code = 0x91 then "SM"
  else ""

def makeErrorResponse (endCode : UInt16) : List UInt8 :=
  [0xD0, 0x00, 0x00, 0xFF, 0xFF, 0x03, 0x00] ++ leBytes 2 ++ leBytes endCode

/-- `static_cast<uint16_t>(start_addr + i)`. -/
def pointIndex (startAddr : UInt32) (i : Nat) : UInt16 :=
  (startAddr + UInt32.ofNat i).toUInt16

/-- Word unit read: the end code and the words. -/
def readWords (m : PlcMemory) (area : String) (startAddr : UInt32) (points : Nat) :
    List UInt8 :=
  leBytes 0x0000 ++ (List.range points).flatMap fun i =>
    leBytes (m.readMCWord area (pointIndex startAddr i))

/-- Bit unit read: the end code and the bits. -/
def readBits (m : PlcMemory) (area : String) (startAddr : UInt32) (points : Nat) :
    List UInt8 :=
  leBytes 0x0000 ++ packFlags points fun i =>
    m.readMCBit area (pointIndex startAddr i)

/-- The loop of the word unit write. -/
def writeWords (m : PlcMemory) (area : String) (startAddr : UInt32) (points : Nat)
    (request : List UInt8) : PlcMemory :=
  (List.range points).foldl
    (fun m i => m.writeMCWord area (pointIndex startAddr i) (le16 request (21 + i * 2))) m

/-- The loop of the bit unit write. -/
def writeBits (m : PlcMemory) (area : String) (startAddr : UInt32) (points : Nat)
    (request : List UInt8) : PlcMemory :=
  (List.range points).foldl
    (fun m i => m.writeMCBit area (pointIndex startAddr i) (flagAt (request.drop 21) i)) m

/-- The response packet around `resp_data`. -/
def respond (request respData : List UInt8) : List UInt8 :=
  [0xD0, 0x00, request.getD 2 0, request.getD 3 0, request.getD 4 0,
    request.getD 5 0, request.getD 6 0] ++
    leBytes (UInt16.ofNat respData.length) ++ respData

def processRequest (m : PlcMemory) (request : List UInt8) :
    PlcMemory × List UInt8 :=
  if request.length < 21 then (m, makeErrorResponse 0xC051)
  else
    let command := le16 request 11
    let subcommand := le16 request 13
    let startAddr := le24 request 15
    let deviceCode := request.getD 18 0
    let points := (le16 request 19).toNat
    if command = 0x0401 then
      if subcommand = 0x0000 then
        let area := getMCWordAreaName deviceCode
        if area.isEmpty then (m, makeErrorResponse 0xC05C)
        else (m, respond request (readWords m area startAddr points))
      else if subcommand = 0x0001 then
        let area := getMCBitAreaName deviceCode
        if area.isEmpty then (m, makeErrorResponse 0xC05C)
        else (m, respond request (readBits m area startAddr points))
      else (m, makeErrorResponse 0xC051)
    else if command = 0x1401 then
      if subcommand = 0x0000 then
        let area := getMCWordAreaName deviceCode
        if area.isEmpty then (m, makeErrorResponse 0xC05C)
        else if request.length < 21 + points * 2 then (m, makeErrorResponse 0xC051)
        else
          (writeWords m area startAddr points request,
            respond request (leBytes 0x0000))
      else if subcommand = 0x0001 then
        let area := getMCBitAreaName deviceCode
        if area.isEmpty then (m, makeErrorResponse 0xC05C)
        else if request.length < 21 + (points + 1) / 2 then
          (m, makeErrorResponse 0xC051)
        else
          (writeBits m area startAddr points request,
            respond request (leBytes 0x0000))
      else (m, makeErrorResponse 0xC051)
    else (m, makeErrorResponse 0xC051)

/-! ## Framing -/

/-- One turn of the loop of `handleClient`. -/
def turn (sends : Nat → Bool) (s : Net.Session PlcMemory) :
    Net.Session PlcMemory × Bool :=
  let (header?, incoming) := Net.recvExact 9 s.incoming
  match header? with
  | none => ({ s with incoming }, false)
  | some header =>
      if header.getD 0 0 ≠ 0x50 ∨ header.getD 1 0 ≠ 0x00 then
        ({ s with incoming }, false)
      else
        let reqDataLen := le16 header 7
        if reqDataLen = 0 ∨ reqDataLen > 2048 then ({ s with incoming }, false)
        else
          let (body?, incoming) := Net.recvExact reqDataLen.toNat incoming
          match body? with
          | none => ({ s with incoming }, false)
          | some body =>
              (Net.Session.serve processRequest id { s with incoming }
                (header ++ body), sends s.outgoing.length)

def handleClient (sends : Nat → Bool) (turns : Nat) (m : PlcMemory)
    (incoming : List (List UInt8)) : Net.Session PlcMemory :=
  Net.Session.run (turn sends) turns (Net.Session.start m incoming)

end McServer

end VPlc
