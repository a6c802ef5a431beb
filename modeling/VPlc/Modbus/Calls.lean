import VPlc.Core.Calls
import VPlc.Modbus.Server

/-!
# A Modbus request, call by call

`processRequest` once more, as the thread of a connection carries it out: which
methods of the memory it calls, in which order, and what it does with the
answers. With nobody else around it is `ModbusServer.processRequest`
(`alone_processRequest`).

No request makes more than one call that takes the lock. The one before it asks
for a size, and sizes do not change (`atomic_processRequest`).
-/

namespace VPlc

open Bytes (be16 beBytes packBits)
open Threads (Prog alone)

namespace ModbusServer.Calls

def readBits (functionCode : UInt8) (startAddr quantityVal : UInt16)
    (size : Prog Call Call.Ret Nat) (read : UInt16 → UInt16 → Prog Call Call.Ret (List Bool)) :
    Prog Call Call.Ret (List UInt8) :=
  if quantityVal < 1 ∨ quantityVal > 2000 then pure (makeExceptionResponse functionCode 0x03)
  else do
    let size ← size
    if startAddr.toNat + quantityVal.toNat > size then
      pure (makeExceptionResponse functionCode 0x02)
    else
      let bits ← read startAddr quantityVal
      let byteCount := UInt8.ofNat ((quantityVal.toNat + 7) / 8)
      pure (functionCode :: byteCount ::
        packBits byteCount.toNat fun idx => decide (idx < bits.length) && bits.getD idx false)

def readRegisters (functionCode : UInt8) (startAddr quantityVal : UInt16)
    (size : Prog Call Call.Ret Nat)
    (read : UInt16 → UInt16 → Prog Call Call.Ret (List UInt16)) :
    Prog Call Call.Ret (List UInt8) :=
  if quantityVal < 1 ∨ quantityVal > 125 then pure (makeExceptionResponse functionCode 0x03)
  else do
    let size ← size
    if startAddr.toNat + quantityVal.toNat > size then
      pure (makeExceptionResponse functionCode 0x02)
    else
      let registers ← read startAddr quantityVal
      let byteCount := UInt8.ofNat (2 * quantityVal.toNat)
      pure (functionCode :: byteCount :: registers.flatMap beBytes)

def writeSingleCoil (request : List UInt8) (startAddr quantityVal : UInt16) :
    Prog Call Call.Ret (List UInt8) := do
  let size ← Call.getCoilsSize.perform
  if startAddr.toNat ≥ size then pure (makeExceptionResponse 0x05 0x02)
  else if quantityVal ≠ 0xFF00 ∧ quantityVal ≠ 0x0000 then
    pure (makeExceptionResponse 0x05 0x03)
  else
    let _ ← (Call.writeCoil startAddr (quantityVal == 0xFF00)).perform
    pure (echo request)

def writeSingleRegister (request : List UInt8) (startAddr quantityVal : UInt16) :
    Prog Call Call.Ret (List UInt8) := do
  let size ← Call.getHoldingRegistersSize.perform
  if startAddr.toNat ≥ size then pure (makeExceptionResponse 0x06 0x02)
  else
    let _ ← (Call.writeHoldingRegister startAddr quantityVal).perform
    pure (echo request)

def writeMultipleCoils (request : List UInt8) (startAddr quantityVal : UInt16) :
    Prog Call Call.Ret (List UInt8) :=
  if request.length < 6 then pure (makeExceptionResponse 0x0F 0x03)
  else
    let byteCount := request.getD 5 0
    if request.length < 6 + byteCount.toNat then pure (makeExceptionResponse 0x0F 0x03)
    else if quantityVal < 1 ∨ quantityVal > 2000 ∨
        byteCount.toNat ≠ (quantityVal.toNat + 7) / 8 then
      pure (makeExceptionResponse 0x0F 0x03)
    else do
      let size ← Call.getCoilsSize.perform
      if startAddr.toNat + quantityVal.toNat > size then pure (makeExceptionResponse 0x0F 0x02)
      else
        let _ ← (Call.writeCoils startAddr (requestCoils request quantityVal)).perform
        pure (echo request)

def writeMultipleRegisters (request : List UInt8) (startAddr quantityVal : UInt16) :
    Prog Call Call.Ret (List UInt8) :=
  if request.length < 6 then pure (makeExceptionResponse 0x10 0x03)
  else
    let byteCount := request.getD 5 0
    if request.length < 6 + byteCount.toNat then pure (makeExceptionResponse 0x10 0x03)
    else if quantityVal < 1 ∨ quantityVal > 123 ∨
        byteCount.toNat ≠ 2 * quantityVal.toNat then
      pure (makeExceptionResponse 0x10 0x03)
    else do
      let size ← Call.getHoldingRegistersSize.perform
      if startAddr.toNat + quantityVal.toNat > size then pure (makeExceptionResponse 0x10 0x02)
      else
        let _ ← (Call.writeHoldingRegisters startAddr
          (requestRegisters request quantityVal)).perform
        pure (echo request)

def processRequest (request : List UInt8) : Prog Call Call.Ret (List UInt8) :=
  if request.isEmpty then pure (makeExceptionResponse 0 0x04)
  else
    let functionCode := request.getD 0 0
    if request.length < 5 then pure (makeExceptionResponse functionCode 0x03)
    else
      let startAddr := be16 request 1
      let quantityVal := be16 request 3
      if functionCode = 0x01 then
        readBits 0x01 startAddr quantityVal Call.getCoilsSize.perform fun start count =>
          (Call.readCoils start count).perform
      else if functionCode = 0x02 then
        readBits 0x02 startAddr quantityVal Call.getDiscreteInputsSize.perform
          fun start count => (Call.readDiscreteInputs start count).perform
      else if functionCode = 0x03 then
        readRegisters 0x03 startAddr quantityVal Call.getHoldingRegistersSize.perform
          fun start count => (Call.readHoldingRegisters start count).perform
      else if functionCode = 0x04 then
        readRegisters 0x04 startAddr quantityVal Call.getInputRegistersSize.perform
          fun start count => (Call.readInputRegisters start count).perform
      else if functionCode = 0x05 then writeSingleCoil request startAddr quantityVal
      else if functionCode = 0x06 then writeSingleRegister request startAddr quantityVal
      else if functionCode = 0x0F then writeMultipleCoils request startAddr quantityVal
      else if functionCode = 0x10 then writeMultipleRegisters request startAddr quantityVal
      else pure (makeExceptionResponse functionCode 0x01)

/-! ## With nobody else around -/

section Alone

variable (m : PlcMemory) (request : List UInt8) (functionCode : UInt8)
  (startAddr quantityVal : UInt16)

theorem alone_readBits {size : Nat} {sizeCall : Prog Call Call.Ret Nat}
    {read : UInt16 → UInt16 → List Bool}
    {readCall : UInt16 → UInt16 → Prog Call Call.Ret (List Bool)}
    (hsize : alone Call.exec sizeCall m = (m, size))
    (hread : ∀ start count, alone Call.exec (readCall start count) m = (m, read start count)) :
    alone Call.exec (readBits functionCode startAddr quantityVal sizeCall readCall) m =
      (m, ModbusServer.readBits functionCode startAddr quantityVal size read) := by
  unfold readBits ModbusServer.readBits
  split
  · rfl
  · simp only [Prog.bind_def, Threads.alone_bind, hsize]
    split
    · rfl
    · simp only [Threads.alone_bind, hread]
      rfl

theorem alone_readRegisters {size : Nat} {sizeCall : Prog Call Call.Ret Nat}
    {read : UInt16 → UInt16 → List UInt16}
    {readCall : UInt16 → UInt16 → Prog Call Call.Ret (List UInt16)}
    (hsize : alone Call.exec sizeCall m = (m, size))
    (hread : ∀ start count, alone Call.exec (readCall start count) m = (m, read start count)) :
    alone Call.exec (readRegisters functionCode startAddr quantityVal sizeCall readCall) m =
      (m, ModbusServer.readRegisters functionCode startAddr quantityVal size read) := by
  unfold readRegisters ModbusServer.readRegisters
  split
  · rfl
  · simp only [Prog.bind_def, Threads.alone_bind, hsize]
    split
    · rfl
    · simp only [Threads.alone_bind, hread]
      rfl

theorem alone_writeSingleCoil :
    alone Call.exec (writeSingleCoil request startAddr quantityVal) m =
      ModbusServer.writeSingleCoil m request startAddr quantityVal := by
  simp only [writeSingleCoil, Prog.bind_def, Threads.alone_bind, Threads.alone_ite]
  rfl

theorem alone_writeSingleRegister :
    alone Call.exec (writeSingleRegister request startAddr quantityVal) m =
      ModbusServer.writeSingleRegister m request startAddr quantityVal := by
  simp only [writeSingleRegister, Prog.bind_def, Threads.alone_bind, Threads.alone_ite]
  rfl

theorem alone_writeMultipleCoils :
    alone Call.exec (writeMultipleCoils request startAddr quantityVal) m =
      ModbusServer.writeMultipleCoils m request startAddr quantityVal := by
  simp only [writeMultipleCoils, Prog.bind_def, Threads.alone_bind, Threads.alone_ite]
  rfl

theorem alone_writeMultipleRegisters :
    alone Call.exec (writeMultipleRegisters request startAddr quantityVal) m =
      ModbusServer.writeMultipleRegisters m request startAddr quantityVal := by
  simp only [writeMultipleRegisters, Prog.bind_def, Threads.alone_bind, Threads.alone_ite]
  rfl

theorem alone_processRequest :
    alone Call.exec (processRequest request) m = ModbusServer.processRequest m request := by
  have hcoils := alone_readBits m 0x01 (be16 request 1) (be16 request 3)
    (Call.alone_perform .getCoilsSize m) fun start count =>
      Call.alone_perform (.readCoils start count) m
  have hinputs := alone_readBits m 0x02 (be16 request 1) (be16 request 3)
    (Call.alone_perform .getDiscreteInputsSize m) fun start count =>
      Call.alone_perform (.readDiscreteInputs start count) m
  have hholding := alone_readRegisters m 0x03 (be16 request 1) (be16 request 3)
    (Call.alone_perform .getHoldingRegistersSize m) fun start count =>
      Call.alone_perform (.readHoldingRegisters start count) m
  have hinput := alone_readRegisters m 0x04 (be16 request 1) (be16 request 3)
    (Call.alone_perform .getInputRegistersSize m) fun start count =>
      Call.alone_perform (.readInputRegisters start count) m
  simp only [processRequest, Threads.alone_ite, hcoils, hinputs, hholding, hinput,
    alone_writeSingleCoil, alone_writeSingleRegister, alone_writeMultipleCoils,
    alone_writeMultipleRegisters]
  rfl

end Alone

/-! ## Which calls are made -/

section Calls

variable {size : Prog Call Call.Ret Nat} {P : Call → Prop}

theorem calls_readBits {read : UInt16 → UInt16 → Prog Call Call.Ret (List Bool)}
    (hsize : size.Calls P) (hread : ∀ start count, (read start count).Calls P)
    (functionCode : UInt8) (startAddr quantityVal : UInt16) :
    (readBits functionCode startAddr quantityVal size read).Calls P := by
  refine Prog.Calls.ite trivial (hsize.bind fun n => ?_)
  exact Prog.Calls.ite trivial ((hread _ _).bind fun _ => trivial)

theorem calls_readRegisters {read : UInt16 → UInt16 → Prog Call Call.Ret (List UInt16)}
    (hsize : size.Calls P) (hread : ∀ start count, (read start count).Calls P)
    (functionCode : UInt8) (startAddr quantityVal : UInt16) :
    (readRegisters functionCode startAddr quantityVal size read).Calls P := by
  refine Prog.Calls.ite trivial (hsize.bind fun n => ?_)
  exact Prog.Calls.ite trivial ((hread _ _).bind fun _ => trivial)

theorem calls_processRequest (request : List UInt8) :
    (processRequest request).Calls (Call.Of .modbus) := by
  unfold processRequest
  refine Prog.Calls.ite trivial (Prog.Calls.ite trivial ?_)
  refine Prog.Calls.ite ?_ (Prog.Calls.ite ?_ (Prog.Calls.ite ?_ (Prog.Calls.ite ?_
    (Prog.Calls.ite ?_ (Prog.Calls.ite ?_ (Prog.Calls.ite ?_ (Prog.Calls.ite ?_ trivial)))))))
  · exact calls_readBits (Call.calls_perform rfl) (fun _ _ => Call.calls_perform rfl) _ _ _
  · exact calls_readBits (Call.calls_perform rfl) (fun _ _ => Call.calls_perform rfl) _ _ _
  · exact calls_readRegisters (Call.calls_perform rfl) (fun _ _ => Call.calls_perform rfl) _ _ _
  · exact calls_readRegisters (Call.calls_perform rfl) (fun _ _ => Call.calls_perform rfl) _ _ _
  · refine (Call.calls_perform rfl).bind fun n => Prog.Calls.ite trivial
      (Prog.Calls.ite trivial ?_)
    exact (Call.calls_perform rfl).bind fun _ => trivial
  · refine (Call.calls_perform rfl).bind fun n => Prog.Calls.ite trivial ?_
    exact (Call.calls_perform rfl).bind fun _ => trivial
  · refine Prog.Calls.ite trivial (Prog.Calls.ite trivial (Prog.Calls.ite trivial ?_))
    refine (Call.calls_perform rfl).bind fun n => Prog.Calls.ite trivial ?_
    exact (Call.calls_perform rfl).bind fun _ => trivial
  · refine Prog.Calls.ite trivial (Prog.Calls.ite trivial (Prog.Calls.ite trivial ?_))
    refine (Call.calls_perform rfl).bind fun n => Prog.Calls.ite trivial ?_
    exact (Call.calls_perform rfl).bind fun _ => trivial

end Calls

/-! ## One call that counts -/

section Atomic

variable {I : PlcMemory → Prop} {size : Prog Call Call.Ret Nat} {n : Nat}

theorem atomic_readBits {read : UInt16 → UInt16 → Prog Call Call.Ret (List Bool)}
    (hsize : Threads.Settled Call.exec I size n)
    (hread : ∀ start count, Threads.Atomic Call.exec I (read start count))
    (functionCode : UInt8) (startAddr quantityVal : UInt16) :
    Threads.Atomic Call.exec I (readBits functionCode startAddr quantityVal size read) := by
  refine .ite (fun _ => .ret _) fun _ => hsize.bind_atomic ?_
  exact .ite (fun _ => .ret _) fun _ => (hread _ _).map _

theorem atomic_readRegisters {read : UInt16 → UInt16 → Prog Call Call.Ret (List UInt16)}
    (hsize : Threads.Settled Call.exec I size n)
    (hread : ∀ start count, Threads.Atomic Call.exec I (read start count))
    (functionCode : UInt8) (startAddr quantityVal : UInt16) :
    Threads.Atomic Call.exec I
      (readRegisters functionCode startAddr quantityVal size read) := by
  refine .ite (fun _ => .ret _) fun _ => hsize.bind_atomic ?_
  exact .ite (fun _ => .ret _) fun _ => (hread _ _).map _

variable (m : PlcMemory)

theorem settled_getCoilsSize :
    Threads.Settled Call.exec m.SameSizes Call.getCoilsSize.perform (m.size .coil) :=
  Threads.Idle.settled fun _ hs => Prod.ext rfl (hs .coil)

theorem settled_getDiscreteInputsSize :
    Threads.Settled Call.exec m.SameSizes Call.getDiscreteInputsSize.perform (m.size .di) :=
  Threads.Idle.settled fun _ hs => Prod.ext rfl (hs .di)

theorem settled_getInputRegistersSize :
    Threads.Settled Call.exec m.SameSizes Call.getInputRegistersSize.perform (m.size .ir) :=
  Threads.Idle.settled fun _ hs => Prod.ext rfl (hs .ir)

theorem settled_getHoldingRegistersSize :
    Threads.Settled Call.exec m.SameSizes Call.getHoldingRegistersSize.perform (m.size .hr) :=
  Threads.Idle.settled fun _ hs => Prod.ext rfl (hs .hr)

/-- No request makes two calls that take the lock. -/
theorem atomic_processRequest (request : List UInt8) :
    Threads.Atomic Call.exec m.SameSizes (processRequest request) := by
  have hcall {c : Call} {reply : List UInt8} :
      Threads.Atomic Call.exec m.SameSizes (c.perform.bind fun _ => .ret reply) :=
    (Threads.Atomic.perform c).map _
  unfold processRequest
  refine .ite (fun _ => .ret _) fun _ => .ite (fun _ => .ret _) fun _ => ?_
  refine .ite (fun _ => ?_) fun _ => .ite (fun _ => ?_) fun _ => .ite (fun _ => ?_) fun _ =>
    .ite (fun _ => ?_) fun _ => .ite (fun _ => ?_) fun _ => .ite (fun _ => ?_) fun _ =>
    .ite (fun _ => ?_) fun _ => .ite (fun _ => ?_) fun _ => .ret _
  · exact atomic_readBits (settled_getCoilsSize m) (fun _ _ => .perform _) _ _ _
  · exact atomic_readBits (settled_getDiscreteInputsSize m) (fun _ _ => .perform _) _ _ _
  · exact atomic_readRegisters (settled_getHoldingRegistersSize m) (fun _ _ => .perform _) _ _ _
  · exact atomic_readRegisters (settled_getInputRegistersSize m) (fun _ _ => .perform _) _ _ _
  · refine (settled_getCoilsSize m).bind_atomic (.ite (fun _ => .ret _) fun _ => ?_)
    exact .ite (fun _ => .ret _) fun _ => hcall
  · refine (settled_getHoldingRegistersSize m).bind_atomic ?_
    exact .ite (fun _ => .ret _) fun _ => hcall
  · refine .ite (fun _ => .ret _) fun _ => .ite (fun _ => .ret _) fun _ =>
      .ite (fun _ => .ret _) fun _ => (settled_getCoilsSize m).bind_atomic ?_
    exact .ite (fun _ => .ret _) fun _ => hcall
  · refine .ite (fun _ => .ret _) fun _ => .ite (fun _ => .ret _) fun _ =>
      .ite (fun _ => .ret _) fun _ => (settled_getHoldingRegistersSize m).bind_atomic ?_
    exact .ite (fun _ => .ret _) fun _ => hcall

end Atomic

end ModbusServer.Calls

end VPlc
