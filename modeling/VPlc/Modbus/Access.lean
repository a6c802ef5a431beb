import VPlc.Bytes.Access
import VPlc.Modbus.Server

/-!
# The Modbus server and the bytes it looks at

`processRequest` once more, with every index it applies to the request. The reply
is only ever pushed to, so the request is the one buffer here. What a case does
once it has its values is taken from the model it has to agree with.
-/

namespace VPlc

open Bytes (Logged bit)
open Bytes.Logged (load loadBe16)

namespace ModbusServer.Watched

section

variable (beyond : Nat → UInt8) (m : PlcMemory) (request : List UInt8)

/-- The function code, and the four bytes behind it. -/
def echo (functionCode : UInt8) : Logged (List UInt8) := do
  let b₁ ← load beyond request 1
  let b₂ ← load beyond request 2
  let b₃ ← load beyond request 3
  let b₄ ← load beyond request 4
  pure [functionCode, b₁, b₂, b₃, b₄]

def writeSingleCoil (startAddr quantityVal : UInt16) : Logged (PlcMemory × List UInt8) :=
  if startAddr.toNat ≥ m.getCoilsSize then pure (m, makeExceptionResponse 0x05 0x02)
  else if quantityVal ≠ 0xFF00 ∧ quantityVal ≠ 0x0000 then
    pure (m, makeExceptionResponse 0x05 0x03)
  else do
    let response ← echo beyond request 0x05
    pure (m.writeCoil startAddr (quantityVal == 0xFF00), response)

def writeSingleRegister (startAddr quantityVal : UInt16) :
    Logged (PlcMemory × List UInt8) :=
  if startAddr.toNat ≥ m.getHoldingRegistersSize then
    pure (m, makeExceptionResponse 0x06 0x02)
  else do
    let response ← echo beyond request 0x06
    pure (m.writeHoldingRegister startAddr quantityVal, response)

/-- `byte_idx`. -/
def byteIdx (i : Nat) : UInt8 := UInt8.ofNat (6 + i / 8)

/-- The loop of case `0x0F`. -/
def requestCoils (quantityVal : UInt16) : Logged (List Bool) :=
  (List.range quantityVal.toNat).mapM fun i => do
    let b ← load beyond request (byteIdx i).toNat
    pure (bit b (i % 8))

def writeMultipleCoils (startAddr quantityVal : UInt16) : Logged (PlcMemory × List UInt8) :=
  if request.length < 6 then pure (m, makeExceptionResponse 0x0F 0x03)
  else do
    let byteCount ← load beyond request 5
    if request.length < 6 + byteCount.toNat then pure (m, makeExceptionResponse 0x0F 0x03)
    else if quantityVal < 1 ∨ quantityVal > 2000 ∨
        byteCount.toNat ≠ (quantityVal.toNat + 7) / 8 then
      pure (m, makeExceptionResponse 0x0F 0x03)
    else if startAddr.toNat + quantityVal.toNat > m.getCoilsSize then
      pure (m, makeExceptionResponse 0x0F 0x02)
    else do
      let values ← requestCoils beyond request quantityVal
      let response ← echo beyond request 0x0F
      pure (m.writeCoils startAddr values, response)

def requestRegisters (quantityVal : UInt16) : Logged (List UInt16) :=
  (List.range quantityVal.toNat).mapM fun i => loadBe16 beyond request (6 + i * 2)

def writeMultipleRegisters (startAddr quantityVal : UInt16) :
    Logged (PlcMemory × List UInt8) :=
  if request.length < 6 then pure (m, makeExceptionResponse 0x10 0x03)
  else do
    let byteCount ← load beyond request 5
    if request.length < 6 + byteCount.toNat then pure (m, makeExceptionResponse 0x10 0x03)
    else if quantityVal < 1 ∨ quantityVal > 123 ∨
        byteCount.toNat ≠ 2 * quantityVal.toNat then
      pure (m, makeExceptionResponse 0x10 0x03)
    else if startAddr.toNat + quantityVal.toNat > m.getHoldingRegistersSize then
      pure (m, makeExceptionResponse 0x10 0x02)
    else do
      let values ← requestRegisters beyond request quantityVal
      let response ← echo beyond request 0x10
      pure (m.writeHoldingRegisters startAddr values, response)

def processRequest : Logged (PlcMemory × List UInt8) :=
  if request.isEmpty then pure (m, makeExceptionResponse 0 0x04)
  else do
    let functionCode ← load beyond request 0
    if request.length < 5 then pure (m, makeExceptionResponse functionCode 0x03)
    else do
      let startAddr ← loadBe16 beyond request 1
      let quantityVal ← loadBe16 beyond request 3
      if functionCode = 0x01 then
        pure (m, readBits 0x01 startAddr quantityVal m.getCoilsSize m.readCoils)
      else if functionCode = 0x02 then
        pure (m, readBits 0x02 startAddr quantityVal m.getDiscreteInputsSize
          m.readDiscreteInputs)
      else if functionCode = 0x03 then
        pure (m, readRegisters 0x03 startAddr quantityVal m.getHoldingRegistersSize
          m.readHoldingRegisters)
      else if functionCode = 0x04 then
        pure (m, readRegisters 0x04 startAddr quantityVal m.getInputRegistersSize
          m.readInputRegisters)
      else if functionCode = 0x05 then
        writeSingleCoil beyond m request startAddr quantityVal
      else if functionCode = 0x06 then
        writeSingleRegister beyond m request startAddr quantityVal
      else if functionCode = 0x0F then
        writeMultipleCoils beyond m request startAddr quantityVal
      else if functionCode = 0x10 then
        writeMultipleRegisters beyond m request startAddr quantityVal
      else pure (m, makeExceptionResponse functionCode 0x01)

end

end ModbusServer.Watched

end VPlc
