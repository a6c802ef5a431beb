import VPlc.Modbus.Access
import VPlc.Proofs.ModbusSpec

/-!
# What the Modbus server looks at, and what its replies look like

The checks of each case bound the indexes of that case, and no others do: with
them the watched server returns what the server does and stays inside the request
(`processRequest_returns`). The tightest is the byte index of a coil write, which
is eight bits wide and gets as far as 255 (`byteIdx_toNat`).

The replies are an exception, the data of a read behind their number, or the
first five bytes of the request (`processRequest_shaped`).
-/

namespace VPlc

open Bytes (be16 beBytes packBits Logged)
open Bytes.Logged (Returns)

namespace ModbusServer

section Watched

variable (beyond : Nat → UInt8) {m : PlcMemory} {request : List UInt8}

theorem echo_returns {functionCode : UInt8} (hfc : request.getD 0 0 = functionCode)
    (hlen : 5 ≤ request.length) :
    (Watched.echo beyond request functionCode).Returns (echo request) := by
  rw [echo, hfc]
  exact .bind (.load beyond (by omega)) (.bind (.load beyond (by omega))
    (.bind (.load beyond (by omega)) (.bind (.load beyond (by omega)) (.pure _))))

theorem writeSingleCoil_returns (hfc : request.getD 0 0 = 0x05) (hlen : 5 ≤ request.length)
    (startAddr quantityVal : UInt16) :
    (Watched.writeSingleCoil beyond m request startAddr quantityVal).Returns
      (writeSingleCoil m request startAddr quantityVal) := by
  refine .ite (fun _ => .pure _) fun _ => .ite (fun _ => .pure _) fun _ => ?_
  exact .bind (echo_returns beyond hfc hlen) (.pure _)

theorem writeSingleRegister_returns (hfc : request.getD 0 0 = 0x06)
    (hlen : 5 ≤ request.length) (startAddr quantityVal : UInt16) :
    (Watched.writeSingleRegister beyond m request startAddr quantityVal).Returns
      (writeSingleRegister m request startAddr quantityVal) := by
  refine .ite (fun _ => .pure _) fun _ => ?_
  exact .bind (echo_returns beyond hfc hlen) (.pure _)

theorem byteIdx_toNat {i : Nat} (hi : i < 2000) : (Watched.byteIdx i).toNat = 6 + i / 8 :=
  UInt8.toNat_ofNat_of_lt' (by show _ < 256; omega)

theorem requestCoils_returns {quantityVal : UInt16} (hq : quantityVal.toNat ≤ 2000)
    (hlen : 6 + (quantityVal.toNat + 7) / 8 ≤ request.length) :
    (Watched.requestCoils beyond request quantityVal).Returns
      (requestCoils request quantityVal) := by
  refine .mapM fun i hi => ?_
  have hi := List.mem_range.mp hi
  refine .bind (.load beyond ?_) (.pure _)
  rw [byteIdx_toNat (by omega)]
  omega

theorem requestRegisters_returns {quantityVal : UInt16}
    (hlen : 6 + 2 * quantityVal.toNat ≤ request.length) :
    (Watched.requestRegisters beyond request quantityVal).Returns
      (requestRegisters request quantityVal) := by
  refine .mapM fun i hi => ?_
  have hi := List.mem_range.mp hi
  exact .loadBe16 beyond (by omega)

theorem writeMultipleCoils_returns (hfc : request.getD 0 0 = 0x0F)
    (hlen : 5 ≤ request.length) (startAddr quantityVal : UInt16) :
    (Watched.writeMultipleCoils beyond m request startAddr quantityVal).Returns
      (writeMultipleCoils m request startAddr quantityVal) := by
  refine .ite (fun _ => .pure _) fun hsix => .bind (.load beyond (by omega)) ?_
  refine .ite (fun _ => .pure _) fun hwhole => .ite (fun _ => .pure _) fun hq => ?_
  refine .ite (fun _ => .pure _) fun _ => ?_
  rw [← or_assoc, not_or, quantity_bad_iff, not_not, not_not] at hq
  have hlimit : quantityVal.toNat ≤ 2000 := hq.1.2
  exact .bind (requestCoils_returns beyond hlimit (by omega))
    (.bind (echo_returns beyond hfc hlen) (.pure _))

theorem writeMultipleRegisters_returns (hfc : request.getD 0 0 = 0x10)
    (hlen : 5 ≤ request.length) (startAddr quantityVal : UInt16) :
    (Watched.writeMultipleRegisters beyond m request startAddr quantityVal).Returns
      (writeMultipleRegisters m request startAddr quantityVal) := by
  refine .ite (fun _ => .pure _) fun hsix => .bind (.load beyond (by omega)) ?_
  refine .ite (fun _ => .pure _) fun hwhole => .ite (fun _ => .pure _) fun hq => ?_
  refine .ite (fun _ => .pure _) fun _ => ?_
  rw [← or_assoc, not_or, not_not] at hq
  exact .bind (requestRegisters_returns beyond (by omega))
    (.bind (echo_returns beyond hfc hlen) (.pure _))

/-- Whatever is asked, the server stays inside the request. -/
theorem processRequest_returns (m : PlcMemory) (request : List UInt8) :
    (Watched.processRequest beyond m request).Returns (processRequest m request) := by
  refine .ite (fun _ => .pure _) fun hne => ?_
  have hpos : 0 < request.length := by
    rw [List.isEmpty_iff] at hne
    exact List.length_pos_iff.mpr hne
  refine .bind (.load beyond hpos) (.ite (fun _ => .pure _) fun hlen => ?_)
  refine .bind (.loadBe16 beyond (by omega)) (.bind (.loadBe16 beyond (by omega)) ?_)
  refine .ite (fun _ => .pure _) fun _ => .ite (fun _ => .pure _) fun _ => ?_
  refine .ite (fun _ => .pure _) fun _ => .ite (fun _ => .pure _) fun _ => ?_
  refine .ite (fun hfc => writeSingleCoil_returns beyond hfc (by omega) _ _) fun _ => ?_
  refine .ite (fun hfc => writeSingleRegister_returns beyond hfc (by omega) _ _) fun _ => ?_
  refine .ite (fun hfc => writeMultipleCoils_returns beyond hfc (by omega) _ _) fun _ => ?_
  exact .ite (fun hfc => writeMultipleRegisters_returns beyond hfc (by omega) _ _)
    fun _ => .pure _

end Watched

/-! ## Replies -/

/-- What a reply to a request that is not empty can be. -/
inductive Shaped (request : List UInt8) : List UInt8 → Prop
  | exception {code : UInt8} : code = 1 ∨ code = 2 ∨ code = 3 →
      Shaped request [request.getD 0 0 ||| 0x80, code]
  | read {a : Area} {byteCount : UInt8} {data : List UInt8} :
      readArea? (request.getD 0 0) = some a → byteCount.toNat = data.length →
      data.length = (if a.isBit then ((be16 request 3).toNat + 7) / 8
        else 2 * (be16 request 3).toNat) →
      data.length ≤ 250 → Shaped request (request.getD 0 0 :: byteCount :: data)
  | write {a : Area} : writeArea? (request.getD 0 0) = some a → 5 ≤ request.length →
      Shaped request (request.take 5)

section Shapes

variable {m : PlcMemory} {a : Area} {request : List UInt8} {functionCode : UInt8}

theorem Shaped.length_le {reply : List UInt8} (h : Shaped request reply) :
    reply.length ≤ 253 := by
  cases h with
  | exception _ =>
      simp only [List.length_cons, List.length_nil]
      omega
  | read _ _ _ hle =>
      simp only [List.length_cons]
      omega
  | write _ _ =>
      rw [List.length_take]
      omega

theorem Shaped.refused (hfc : request.getD 0 0 = functionCode) {code : UInt8}
    (hcode : code = 1 ∨ code = 2 ∨ code = 3) :
    Shaped request (makeExceptionResponse functionCode code) := by
  subst hfc
  exact .exception hcode

theorem Shaped.echo (ha : writeArea? (request.getD 0 0) = some a)
    (hlen : 5 ≤ request.length) : Shaped request (echo request) := by
  have htake : ModbusServer.echo request = request.take 5 :=
    Bytes.range_map_getD (i := 0) (n := 5) (by omega)
  rw [htake]
  exact .write ha hlen

theorem Shaped.ite {c : Prop} [Decidable c] {x y : PlcMemory × List UInt8}
    (hx : c → Shaped request x.2) (hy : ¬ c → Shaped request y.2) :
    Shaped request (if c then x else y).2 := by
  split
  · next h => exact hx h
  · next h => exact hy h

theorem Shaped.check (hfc : request.getD 0 0 = functionCode) {code : UInt8}
    (hcode : code = 1 ∨ code = 2 ∨ code = 3) {c : Prop} [Decidable c]
    {x : PlcMemory × List UInt8} (hx : ¬ c → Shaped request x.2) :
    Shaped request (if c then (m, makeExceptionResponse functionCode code) else x).2 :=
  .ite (fun _ => .refused hfc hcode) hx

theorem readBits_shaped (hfc : request.getD 0 0 = functionCode)
    (ha : readArea? functionCode = some a) (hbit : a.isBit = true) (startAddr : UInt16)
    (size : Nat) (read : UInt16 → UInt16 → List Bool) :
    Shaped request (readBits functionCode startAddr (be16 request 3) size read) := by
  unfold readBits
  split
  · exact .refused hfc (by decide)
  · next hq =>
      split
      · exact .refused hfc (by decide)
      · rw [quantity_bad_iff, not_not] at hq
        have hlimit : (be16 request 3).toNat ≤ 2000 := hq.2
        have hcount : (UInt8.ofNat (((be16 request 3).toNat + 7) / 8)).toNat =
            ((be16 request 3).toNat + 7) / 8 :=
          UInt8.toNat_ofNat_of_lt' (by show _ < 256; omega)
        subst hfc
        refine .read ha ?_ ?_ ?_
        · rw [Bytes.length_packBits]
        · rw [Bytes.length_packBits, hcount, if_pos hbit]
        · rw [Bytes.length_packBits, hcount]
          omega

theorem readRegisters_shaped (hfc : request.getD 0 0 = functionCode)
    (ha : readArea? functionCode = some a) (hword : a.isBit = false) (startAddr : UInt16)
    (size : Nat) {read : UInt16 → UInt16 → List UInt16}
    (hread : be16 request 3 ≠ 0 → startAddr.toNat + (be16 request 3).toNat ≤ size →
      PlcMemory.ReadsWords m a startAddr.toNat (be16 request 3).toNat
        (read startAddr (be16 request 3))) :
    Shaped request (readRegisters functionCode startAddr (be16 request 3) size read) := by
  unfold readRegisters
  split
  · exact .refused hfc (by decide)
  · next hq =>
      split
      · exact .refused hfc (by decide)
      · next hsize =>
          rw [quantity_bad_iff, not_not] at hq
          have hlimit : (be16 request 3).toNat ≤ 125 := hq.2
          have hne : be16 request 3 ≠ 0 := by
            intro h
            rw [h] at hq
            exact absurd hq.1 (by decide)
          have hlen := (hread hne (by omega)).length
          have hdata : ((read startAddr (be16 request 3)).flatMap beBytes).length =
              2 * (be16 request 3).toNat := by
            rw [Bytes.length_flatMap_beBytes, hlen]
          subst hfc
          refine .read ha ?_ ?_ ?_
          · rw [hdata]
            exact UInt8.toNat_ofNat_of_lt' (by show _ < 256; omega)
          · rw [hdata, hword, if_neg Bool.false_ne_true]
          · omega

theorem writeSingleCoil_shaped (hfc : request.getD 0 0 = 0x05) (hlen : 5 ≤ request.length)
    (startAddr quantityVal : UInt16) :
    Shaped request (writeSingleCoil m request startAddr quantityVal).2 := by
  refine .check hfc (by decide) fun _ => ?_
  refine .check hfc (by decide) fun _ => ?_
  exact .echo (by rw [hfc]; rfl) hlen

theorem writeSingleRegister_shaped (hfc : request.getD 0 0 = 0x06)
    (hlen : 5 ≤ request.length) (startAddr quantityVal : UInt16) :
    Shaped request (writeSingleRegister m request startAddr quantityVal).2 := by
  refine .check hfc (by decide) fun _ => ?_
  exact .echo (by rw [hfc]; rfl) hlen

theorem writeMultipleCoils_shaped (hfc : request.getD 0 0 = 0x0F)
    (hlen : 5 ≤ request.length) (startAddr quantityVal : UInt16) :
    Shaped request (writeMultipleCoils m request startAddr quantityVal).2 := by
  refine .check hfc (by decide) fun _ => ?_
  refine .check hfc (by decide) fun _ => ?_
  refine .check hfc (by decide) fun _ => ?_
  refine .check hfc (by decide) fun _ => ?_
  exact .echo (by rw [hfc]; rfl) hlen

theorem writeMultipleRegisters_shaped (hfc : request.getD 0 0 = 0x10)
    (hlen : 5 ≤ request.length) (startAddr quantityVal : UInt16) :
    Shaped request (writeMultipleRegisters m request startAddr quantityVal).2 := by
  refine .check hfc (by decide) fun _ => ?_
  refine .check hfc (by decide) fun _ => ?_
  refine .check hfc (by decide) fun _ => ?_
  refine .check hfc (by decide) fun _ => ?_
  exact .echo (by rw [hfc]; rfl) hlen

theorem processRequest_shaped (m : PlcMemory) (hne : request ≠ []) :
    Shaped request (processRequest m request).2 := by
  have hempty : request.isEmpty = false := by
    rw [List.isEmpty_eq_false_iff]
    exact hne
  rw [processRequest, if_neg (by rw [hempty]; exact Bool.false_ne_true)]
  refine .check rfl (by decide) fun hlen => ?_
  refine .ite (fun hfc => readBits_shaped hfc rfl rfl _ _ _) fun _ => ?_
  refine .ite (fun hfc => readBits_shaped hfc rfl rfl _ _ _) fun _ => ?_
  refine .ite (fun hfc => readRegisters_shaped hfc rfl rfl _ _
    PlcMemory.readHoldingRegisters_reads) fun _ => ?_
  refine .ite (fun hfc => readRegisters_shaped hfc rfl rfl _ _
    PlcMemory.readInputRegisters_reads) fun _ => ?_
  have hfive : 5 ≤ request.length := by omega
  refine .ite (fun hfc => writeSingleCoil_shaped hfc hfive _ _) fun _ => ?_
  refine .ite (fun hfc => writeSingleRegister_shaped hfc hfive _ _) fun _ => ?_
  refine .ite (fun hfc => writeMultipleCoils_shaped hfc hfive _ _) fun _ => ?_
  exact .ite (fun hfc => writeMultipleRegisters_shaped hfc hfive _ _)
    fun _ => .refused rfl (by decide)

end Shapes

end ModbusServer

end VPlc
