import VPlc.Proofs.McAccess
import VPlc.Proofs.ModbusAccess

/-!
# Any bytes at all

What a client sends is not checked before it reaches `processRequest`, so what
holds of requests has to hold of every byte string. Neither server looks past
the end of one, neither writes past the end of the reply it builds, and whatever
a Modbus client sends, the answer is one it can take apart (`requests_guarded`).
-/

namespace VPlc

structure Guarded (beyond : Nat → UInt8) (m : PlcMemory) (request : List UInt8) :
    Prop where
  modbus : (ModbusServer.Watched.processRequest beyond m request).Returns
    (ModbusServer.processRequest m request)
  /-- As far as the loop over coils gets. -/
  byteIdx : ∀ i < 2000, (ModbusServer.Watched.byteIdx i).toNat = 6 + i / 8
  mc : (McServer.Watched.processRequest beyond m request).Returns
    (McServer.processRequest m request)
  shaped : request ≠ [] →
    ModbusServer.Shaped request (ModbusServer.processRequest m request).2
  length : (ModbusServer.processRequest m request).2.length ≤ 253

theorem requests_guarded (beyond : Nat → UInt8) (m : PlcMemory) (request : List UInt8) :
    Guarded beyond m request := by
  have hshaped : request ≠ [] →
      ModbusServer.Shaped request (ModbusServer.processRequest m request).2 :=
    ModbusServer.processRequest_shaped m
  refine ⟨ModbusServer.processRequest_returns beyond m request,
    fun _ hi => ModbusServer.byteIdx_toNat hi,
    McServer.processRequest_returns beyond m request, hshaped, ?_⟩
  cases request with
  | nil =>
      show 2 ≤ 253
      decide
  | cons b request => exact (hshaped (List.cons_ne_nil b request)).length_le

end VPlc
