import VPlc.Bytes.Access
import VPlc.Mc.Server

/-!
# The MC server and the bytes it looks at

`processRequest` once more, with every index it applies to the request and to the
two buffers the reply is built in. A buffer is as long as the source makes it
before it is filled. A byte that is or'ed into is one access, since it is read
and written at one index.
-/

namespace VPlc

open Bytes (Logged)
open Bytes.Logged (load loadLe16 store storeLe16 storeSlice modify)

namespace McServer.Watched

section

variable (beyond : Nat → UInt8) (m : PlcMemory) (request : List UInt8)

/-- `std::vector<uint8_t>(n)`, and what `resize` makes of an empty one. -/
def zeros (n : Nat) : List UInt8 := List.replicate n 0

def makeErrorResponse (endCode : UInt16) : Logged (List UInt8) := do
  let response ← store (zeros 11) 0 0xD0
  let response ← store response 1 0x00
  let response ← store response 2 0x00
  let response ← store response 3 0xFF
  let response ← store response 4 0xFF
  let response ← store response 5 0x03
  let response ← store response 6 0x00
  let response ← storeLe16 response 7 2
  storeLe16 response 9 endCode

/-- Word unit read. -/
def readWords (area : String) (startAddr : UInt32) (points : Nat) : Logged (List UInt8) := do
  let respData ← storeLe16 (zeros (2 + points * 2)) 0 0x0000
  (List.range points).foldlM
    (fun respData i =>
      storeLe16 respData (2 + i * 2) (m.readMCWord area (pointIndex startAddr i))) respData

/-- Bit unit read. -/
def readBits (area : String) (startAddr : UInt32) (points : Nat) : Logged (List UInt8) := do
  let respData ← storeLe16 (zeros (2 + (points + 1) / 2)) 0 0x0000
  (List.range points).foldlM
    (fun respData i => modify respData (2 + i / 2)
      (Bytes.orFlag (m.readMCBit area (pointIndex startAddr i)) i)) respData

def writeWords (area : String) (startAddr : UInt32) (points : Nat) : Logged PlcMemory :=
  (List.range points).foldlM
    (fun m i => do
      let val ← loadLe16 beyond request (21 + i * 2)
      pure (m.writeMCWord area (pointIndex startAddr i) val)) m

/-- Which half of a byte holds point `i`, and whether it is set. -/
def flagOf (byteVal : UInt8) (i : Nat) : Bool :=
  if i % 2 = 0 then (byteVal >>> 4) &&& 0x0F != 0 else byteVal &&& 0x0F != 0

def writeBits (area : String) (startAddr : UInt32) (points : Nat) : Logged PlcMemory :=
  (List.range points).foldlM
    (fun m i => do
      let byteVal ← load beyond request (21 + i / 2)
      pure (m.writeMCBit area (pointIndex startAddr i) (flagOf byteVal i))) m

/-- `resp_data` of an acknowledged write. -/
def success : Logged (List UInt8) := storeLe16 (zeros 2) 0 0x0000

def respond (respData : List UInt8) : Logged (List UInt8) := do
  let response ← store (zeros (9 + respData.length)) 0 0xD0
  let response ← store response 1 0x00
  let response ← store response 2 (← load beyond request 2)
  let response ← store response 3 (← load beyond request 3)
  let response ← store response 4 (← load beyond request 4)
  let response ← store response 5 (← load beyond request 5)
  let response ← store response 6 (← load beyond request 6)
  let response ← storeLe16 response 7 (UInt16.ofNat respData.length)
  storeSlice response 9 respData

/-- A request is refused, and the memory is as it was. -/
def refuse (endCode : UInt16) : Logged (PlcMemory × List UInt8) := do
  let response ← makeErrorResponse endCode
  pure (m, response)

/-- A request is answered with the data a read returns. -/
def answer (data : Logged (List UInt8)) : Logged (PlcMemory × List UInt8) := do
  let respData ← data
  let response ← respond beyond request respData
  pure (m, response)

/-- A request is acknowledged, after the write it asks for. -/
def acknowledge (write : Logged PlcMemory) : Logged (PlcMemory × List UInt8) := do
  let m ← write
  let respData ← success
  let response ← respond beyond request respData
  pure (m, response)

def processRequest : Logged (PlcMemory × List UInt8) :=
  if request.length < 21 then refuse m 0xC051
  else do
    let command ← loadLe16 beyond request 11
    let subcommand ← loadLe16 beyond request 13
    let b₀ ← load beyond request 15
    let b₁ ← load beyond request 16
    let b₂ ← load beyond request 17
    let startAddr := b₀.toUInt32 ||| (b₁.toUInt32 <<< 8) ||| (b₂.toUInt32 <<< 16)
    let deviceCode ← load beyond request 18
    let points := (← loadLe16 beyond request 19).toNat
    if command = 0x0401 then
      if subcommand = 0x0000 then
        let area := getMCWordAreaName deviceCode
        if area.isEmpty then refuse m 0xC05C
        else answer beyond m request (readWords m area startAddr points)
      else if subcommand = 0x0001 then
        let area := getMCBitAreaName deviceCode
        if area.isEmpty then refuse m 0xC05C
        else answer beyond m request (readBits m area startAddr points)
      else refuse m 0xC051
    else if command = 0x1401 then
      if subcommand = 0x0000 then
        let area := getMCWordAreaName deviceCode
        if area.isEmpty then refuse m 0xC05C
        else if request.length < 21 + points * 2 then refuse m 0xC051
        else acknowledge beyond request (writeWords beyond m request area startAddr points)
      else if subcommand = 0x0001 then
        let area := getMCBitAreaName deviceCode
        if area.isEmpty then refuse m 0xC05C
        else if request.length < 21 + (points + 1) / 2 then refuse m 0xC051
        else acknowledge beyond request (writeBits beyond m request area startAddr points)
      else refuse m 0xC051
    else refuse m 0xC051

end

end McServer.Watched

end VPlc
