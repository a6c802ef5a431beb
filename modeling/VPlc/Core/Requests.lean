import VPlc.Mc.Calls
import VPlc.Modbus.Calls
import VPlc.Xgt.Calls

/-!
# What threads do with the memory

A thread of the runtime works for a connection, and then it carries out requests
of one protocol, or it is one of the runtime's own, and then it calls the memory
directly. `Work` is a piece of either. `serve` is how it is carried out, call by
call, and `process` what it comes to when nobody interferes.
-/

namespace VPlc

open Threads (Prog)

/-- A request of one of the three protocols that are served here, or a call. -/
inductive Work
  | modbus (pdu : List UInt8)
  | mc (request : List UInt8)
  | xgt (request : List UInt8)
  | call (c : Call)
  deriving DecidableEq, Repr

namespace Work

/-- A request is answered in bytes. -/
@[reducible] def Ret : Work → Type
  | modbus _ | mc _ | xgt _ => List UInt8
  | call c => c.Ret

def protocol : Work → Protocol
  | modbus _ => .modbus
  | mc _ => .mc
  | xgt _ => .ls
  | call c => c.protocol

variable (beyond : Nat → UInt8)

/-- Call by call. -/
def serve : (w : Work) → Prog Call Call.Ret w.Ret
  | modbus pdu => ModbusServer.Calls.processRequest pdu
  | mc request => McServer.Calls.processRequest request
  | xgt request => XgtServer.Calls.processRequest beyond request
  | call c => c.perform

/-- All at once. -/
def process : (w : Work) → PlcMemory → PlcMemory × w.Ret
  | modbus pdu, m => ModbusServer.processRequest m pdu
  | mc request, m => McServer.processRequest m request
  | xgt request, m => XgtServer.processRequest beyond m request
  | call c, m => c.exec m

theorem whole_serve : Threads.whole Call.exec (serve beyond) = process beyond := by
  funext w m
  cases w with
  | modbus pdu => exact ModbusServer.Calls.alone_processRequest m pdu
  | mc request => exact McServer.Calls.alone_processRequest m request
  | xgt request => exact XgtServer.Calls.alone_processRequest beyond request m
  | call c => rfl

/-- A piece of work makes one call that counts: a Modbus request always does, one
of the others if it is about a single cell. -/
def Single : Work → Prop
  | modbus _ => True
  | mc request => (Bytes.le16 request 19).toNat ≤ 1
  | xgt request => XgtServer.Calls.cells request ≤ 1
  | call _ => True

theorem calls_serve (w : Work) : (w.serve beyond).Calls (Call.Of w.protocol) := by
  cases w with
  | modbus pdu => exact ModbusServer.Calls.calls_processRequest pdu
  | mc request => exact McServer.Calls.calls_processRequest request
  | xgt request => exact XgtServer.Calls.calls_processRequest beyond request
  | call c => exact Call.calls_perform rfl

theorem atomic_serve (m : PlcMemory) {w : Work} (h : w.Single) :
    Threads.Atomic Call.exec m.SameSizes (w.serve beyond) := by
  cases w with
  | modbus pdu => exact ModbusServer.Calls.atomic_processRequest m pdu
  | mc request => exact McServer.Calls.atomic_processRequest h
  | xgt request => exact XgtServer.Calls.atomic_processRequest beyond h
  | call c => exact Call.atomic_perform c

end Work

end VPlc
