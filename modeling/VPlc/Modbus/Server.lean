import VPlc.Bytes.Wire
import VPlc.Core.Memory
import VPlc.Net.Session

/-!
# The Modbus server

`processRequest` takes a request PDU to the memory it leaves and the reply PDU.
The switch over function codes is written as the source has it, and the pairs of
cases that differ in the accessor only, reads of coils and of discrete inputs,
reads of holding and of input registers, are one definition each. A byte string
is read with `getD`; every offset the server reads at is inside the request by
the checks made before.

`handleClient` is the layer below: the seven bytes of the MBAP header, the window
its length field has to fall in, and the rest of the frame.
-/

namespace VPlc

open Bytes (be16 beBytes bit packBits)

namespace ModbusServer

def makeExceptionResponse (functionCode exceptionCode : UInt8) : List UInt8 :=
  [functionCode ||| 0x80, exceptionCode]

/-- Cases `0x01` and `0x02`. -/
def readBits (functionCode : UInt8) (startAddr quantityVal : UInt16) (size : Nat)
    (read : UInt16 → UInt16 → List Bool) : List UInt8 :=
  if quantityVal < 1 ∨ quantityVal > 2000 then
    makeExceptionResponse functionCode 0x03
  else if startAddr.toNat + quantityVal.toNat > size then
    makeExceptionResponse functionCode 0x02
  else
    let bits := read startAddr quantityVal
    let byteCount := UInt8.ofNat ((quantityVal.toNat + 7) / 8)
    functionCode :: byteCount ::
      packBits byteCount.toNat fun idx => decide (idx < bits.length) && bits.getD idx false

/-- Cases `0x03` and `0x04`. -/
def readRegisters (functionCode : UInt8) (startAddr quantityVal : UInt16)
    (size : Nat) (read : UInt16 → UInt16 → List UInt16) : List UInt8 :=
  if quantityVal < 1 ∨ quantityVal > 125 then
    makeExceptionResponse functionCode 0x03
  else if startAddr.toNat + quantityVal.toNat > size then
    makeExceptionResponse functionCode 0x02
  else
    let registers := read startAddr quantityVal
    let byteCount := UInt8.ofNat (2 * quantityVal.toNat)
    functionCode :: byteCount :: registers.flatMap beBytes

/-- The first five bytes of the request, sent back. -/
def echo (request : List UInt8) : List UInt8 :=
  [request.getD 0 0, request.getD 1 0, request.getD 2 0, request.getD 3 0,
    request.getD 4 0]

/-- Case `0x05`. -/
def writeSingleCoil (m : PlcMemory) (request : List UInt8)
    (startAddr quantityVal : UInt16) : PlcMemory × List UInt8 :=
  if startAddr.toNat ≥ m.getCoilsSize then (m, makeExceptionResponse 0x05 0x02)
  else if quantityVal ≠ 0xFF00 ∧ quantityVal ≠ 0x0000 then
    (m, makeExceptionResponse 0x05 0x03)
  else (m.writeCoil startAddr (quantityVal == 0xFF00), echo request)

/-- Case `0x06`. -/
def writeSingleRegister (m : PlcMemory) (request : List UInt8)
    (startAddr quantityVal : UInt16) : PlcMemory × List UInt8 :=
  if startAddr.toNat ≥ m.getHoldingRegistersSize then
    (m, makeExceptionResponse 0x06 0x02)
  else (m.writeHoldingRegister startAddr quantityVal, echo request)

/-- The loop of case `0x0F`, its byte index an `uint8_t`. -/
def requestCoils (request : List UInt8) (quantityVal : UInt16) : List Bool :=
  (List.range quantityVal.toNat).map fun i =>
    let byteIdx := UInt8.ofNat (6 + i / 8)
    bit (request.getD byteIdx.toNat 0) (i % 8)

/-- Case `0x0F`. -/
def writeMultipleCoils (m : PlcMemory) (request : List UInt8)
    (startAddr quantityVal : UInt16) : PlcMemory × List UInt8 :=
  if request.length < 6 then (m, makeExceptionResponse 0x0F 0x03)
  else
    let byteCount := request.getD 5 0
    if request.length < 6 + byteCount.toNat then
      (m, makeExceptionResponse 0x0F 0x03)
    else if quantityVal < 1 ∨ quantityVal > 2000 ∨
        byteCount.toNat ≠ (quantityVal.toNat + 7) / 8 then
      (m, makeExceptionResponse 0x0F 0x03)
    else if startAddr.toNat + quantityVal.toNat > m.getCoilsSize then
      (m, makeExceptionResponse 0x0F 0x02)
    else (m.writeCoils startAddr (requestCoils request quantityVal), echo request)

/-- The loop of case `0x10`. -/
def requestRegisters (request : List UInt8) (quantityVal : UInt16) :
    List UInt16 :=
  (List.range quantityVal.toNat).map fun i => be16 request (6 + i * 2)

/-- Case `0x10`. -/
def writeMultipleRegisters (m : PlcMemory) (request : List UInt8)
    (startAddr quantityVal : UInt16) : PlcMemory × List UInt8 :=
  if request.length < 6 then (m, makeExceptionResponse 0x10 0x03)
  else
    let byteCount := request.getD 5 0
    if request.length < 6 + byteCount.toNat then
      (m, makeExceptionResponse 0x10 0x03)
    else if quantityVal < 1 ∨ quantityVal > 123 ∨
        byteCount.toNat ≠ 2 * quantityVal.toNat then
      (m, makeExceptionResponse 0x10 0x03)
    else if startAddr.toNat + quantityVal.toNat > m.getHoldingRegistersSize then
      (m, makeExceptionResponse 0x10 0x02)
    else
      (m.writeHoldingRegisters startAddr (requestRegisters request quantityVal),
        echo request)

def processRequest (m : PlcMemory) (request : List UInt8) :
    PlcMemory × List UInt8 :=
  if request.isEmpty then (m, makeExceptionResponse 0 0x04)
  else
    let functionCode := request.getD 0 0
    if request.length < 5 then (m, makeExceptionResponse functionCode 0x03)
    else
      let startAddr := be16 request 1
      let quantityVal := be16 request 3
      if functionCode = 0x01 then
        (m, readBits 0x01 startAddr quantityVal m.getCoilsSize m.readCoils)
      else if functionCode = 0x02 then
        (m, readBits 0x02 startAddr quantityVal m.getDiscreteInputsSize
          m.readDiscreteInputs)
      else if functionCode = 0x03 then
        (m, readRegisters 0x03 startAddr quantityVal m.getHoldingRegistersSize
          m.readHoldingRegisters)
      else if functionCode = 0x04 then
        (m, readRegisters 0x04 startAddr quantityVal m.getInputRegistersSize
          m.readInputRegisters)
      else if functionCode = 0x05 then writeSingleCoil m request startAddr quantityVal
      else if functionCode = 0x06 then
        writeSingleRegister m request startAddr quantityVal
      else if functionCode = 0x0F then
        writeMultipleCoils m request startAddr quantityVal
      else if functionCode = 0x10 then
        writeMultipleRegisters m request startAddr quantityVal
      else (m, makeExceptionResponse functionCode 0x01)

/-! ## Framing -/

/-- The MBAP header. -/
def mbap (transactionId protocolId length : UInt16) (unitId : UInt8) :
    List UInt8 :=
  beBytes transactionId ++ (beBytes protocolId ++ (beBytes length ++ [unitId]))

/-- A reply as it is sent: the header of its request, the length of its own. -/
def respond (transactionId protocolId : UInt16) (unitId : UInt8)
    (responsePdu : List UInt8) : List UInt8 :=
  mbap transactionId protocolId (UInt16.ofNat (responsePdu.length + 1)) unitId ++
    responsePdu

/-- One turn of the loop of `handleClient`. -/
def turn (sends : Nat → Bool) (s : Net.Session PlcMemory) :
    Net.Session PlcMemory × Bool :=
  let (header?, incoming) := Net.recvExact 7 s.incoming
  match header? with
  | none => ({ s with incoming }, false)
  | some header =>
      let transactionId := be16 header 0
      let protocolId := be16 header 2
      let length := be16 header 4
      let unitId := header.getD 6 0
      if protocolId ≠ 0 then ({ s with incoming }, false)
      else if length < 2 ∨ length > 250 then ({ s with incoming }, false)
      else
        let (pdu?, incoming) := Net.recvExact (length.toNat - 1) incoming
        match pdu? with
        | none => ({ s with incoming }, false)
        | some requestPdu =>
            (Net.Session.serve processRequest (respond transactionId protocolId unitId)
              { s with incoming } requestPdu, sends s.outgoing.length)

def handleClient (sends : Nat → Bool) (turns : Nat) (m : PlcMemory)
    (incoming : List (List UInt8)) : Net.Session PlcMemory :=
  Net.Session.run (turn sends) turns (Net.Session.start m incoming)

end ModbusServer

end VPlc
