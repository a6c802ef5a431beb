import VPlc.Bytes.Access
import VPlc.Xgt.Request

/-!
# The XGT server and the bytes it looks at

`processRequest` once more, with every index it applies to the request. The
lengths in a request decide where the next byte is looked for, and the value of a
written block is looked for whatever its length says.
-/

namespace VPlc

open Bytes (Logged leBytes)
open Bytes.Logged (load loadLe16 loadSlice)

namespace XgtServer.Watched

section

variable (beyond : Nat → UInt8) (request : List UInt8)

/-- The loop of the individual read. -/
def readBlocks (m : PlcMemory) :
    Nat → Nat → List UInt8 → Logged (List UInt8 × Option Fault)
  | 0, _, respData => pure (respData, none)
  | b + 1, offset, respData =>
      if request.length < offset + 2 then pure (respData, some .length)
      else do
        let varLen ← loadLe16 beyond request offset
        if request.length < offset + 2 + varLen.toNat then pure (respData, some .length)
        else do
          let varName ← loadSlice beyond request (offset + 2) varLen.toNat
          match resolveAddress varName with
          | none => pure (respData, some .address)
          | some addr =>
              readBlocks m b (offset + 2 + varLen.toNat) (respData ++ blockData m addr)

def storeBlock (m : PlcMemory) (addr : LsAddress) (offset : Nat) : Logged PlcMemory :=
  if addr.isBit then do
    let val ← load beyond request offset
    pure (m.writeLSBit addr.areaStr addr.flatIdx (val != 0))
  else do
    let val ← loadLe16 beyond request offset
    pure (m.writeLSWord addr.index val)

def writeBlocks : Nat → Nat → PlcMemory → Logged (PlcMemory × Option Fault)
  | 0, _, m => pure (m, none)
  | b + 1, offset, m =>
      if request.length < offset + 2 then pure (m, some .length)
      else do
        let varLen ← loadLe16 beyond request offset
        if request.length < offset + 2 + varLen.toNat then pure (m, some .length)
        else do
          let varName ← loadSlice beyond request (offset + 2) varLen.toNat
          match resolveAddress varName with
          | none => pure (m, some .address)
          | some addr =>
              if request.length < offset + 2 + varLen.toNat + 2 then pure (m, some .length)
              else do
                let len ← loadLe16 beyond request (offset + 2 + varLen.toNat)
                let dataLen := (writeDataLen len).toNat
                if request.length < offset + 2 + varLen.toNat + 2 + dataLen then
                  pure (m, some .length)
                else do
                  let m ← storeBlock beyond request m addr (offset + 2 + varLen.toNat + 2)
                  writeBlocks b (offset + 2 + varLen.toNat + 2 + dataLen) m

def readRun (m : PlcMemory) (varLen : Nat) (addr? : Option LsAddress) :
    Logged (List UInt8 × Option Fault) :=
  if request.length < 30 + varLen + 2 then pure ([], some .length)
  else
    match addr? with
    | none => pure ([], some .address)
    | some addr => do
        let byteCount ← loadLe16 beyond request (30 + varLen)
        let numWords := byteCount.toNat / 2
        pure (leBytes byteCount ++ (List.range numWords).flatMap fun i =>
          leBytes (m.readLSWord (UInt16.ofNat (addr.index.toNat + i))), none)

def writeRun (m : PlcMemory) (varLen : Nat) (addr? : Option LsAddress) :
    Logged (PlcMemory × Option Fault) :=
  if request.length < 30 + varLen + 2 then pure (m, some .length)
  else do
    let len ← loadLe16 beyond request (30 + varLen)
    let dataLen := (writeDataLen len).toNat
    if request.length < 30 + varLen + 2 + dataLen then pure (m, some .length)
    else
      match addr? with
      | none => pure (m, some .address)
      | some addr => do
          let m ← (List.range (dataLen / 2)).foldlM
            (fun m i => do
              let val ← loadLe16 beyond request (30 + varLen + 2 + i * 2)
              pure (m.writeLSWord (UInt16.ofNat (addr.index.toNat + i)) val)) m
          pure (m, none)

def respond (command dataType blockCount : UInt16) (respData : List UInt8)
    (status : UInt16) : Logged (List UInt8) := do
  let head ← loadSlice beyond request 0 12
  let b₁₂ ← load beyond request 12
  let b₁₄ ← load beyond request 14
  let b₁₅ ← load beyond request 15
  let b₁₈ ← load beyond request 18
  let b₁₉ ← load beyond request 19
  pure (head ++ [b₁₂, 0x11, b₁₄, b₁₅] ++ leBytes (UInt16.ofNat (12 + respData.length)) ++
    [b₁₈, b₁₉] ++ leBytes (respCmd command) ++ leBytes dataType ++ [0x00, 0x00] ++
    leBytes status ++ leBytes blockCount ++ respData)

/-- A continuous request, once its name is there. -/
def executeRun (m : PlcMemory) (command : UInt16) (varLen : Nat)
    (addr? : Option LsAddress) : Logged (PlcMemory × List UInt8 × Option Fault) :=
  if command = 0x0054 then do
    let r ← readRun beyond request m varLen addr?
    pure (m, r)
  else if command = 0x0058 then do
    let r ← writeRun beyond request m varLen addr?
    pure (r.1, [], r.2)
  else pure (m, [], some .command)

/-- An individual request. -/
def executeBlocks (m : PlcMemory) (command : UInt16) (blockCount : Nat) :
    Logged (PlcMemory × List UInt8 × Option Fault) :=
  if command = 0x0054 then do
    let r ← readBlocks beyond request m blockCount 28 []
    pure (m, r)
  else if command = 0x0058 then do
    let r ← writeBlocks beyond request blockCount 28 m
    pure (r.1, [], r.2)
  else pure (m, [], some .command)

end

def processRequest (beyond : Nat → UInt8) (m : PlcMemory) (request : List UInt8) :
    Logged (PlcMemory × List UInt8) :=
  if request.length < 30 then pure (m, errorReply 0x00FF (errorStatus (some .request)))
  else do
    let command ← loadLe16 beyond request 20
    let dataType ← loadLe16 beyond request 22
    if dataType = 0x0014 then do
      let varLen ← loadLe16 beyond request 28
      if request.length < 30 + varLen.toNat then
        pure (m, errorReply (respCmd command) (errorStatus (some .name)))
      else do
        let varName ← loadSlice beyond request 30 varLen.toNat
        let r ← executeRun beyond request m command varLen.toNat (resolveAddress varName)
        let response ← respond beyond request command dataType 1 r.2.1 (errorStatus r.2.2)
        pure (r.1, response)
    else do
      let blockCount ← loadLe16 beyond request 26
      let r ← executeBlocks beyond request m command blockCount.toNat
      let response ← respond beyond request command dataType blockCount r.2.1
        (errorStatus r.2.2)
      pure (r.1, response)

end XgtServer.Watched

end VPlc
