import VPlc.Core.Block
import VPlc.Modbus.Server

/-!
# What a Modbus request does

Every request comes to one of three ends, and `processRequest_outcome` says
which: it is refused, with an exception and no effect; it writes the block it
names and is echoed; or it reads one, and the reply decodes to the cells. A read
is admitted by its quantity and its range alone (`processRequest_read`), so what
a write stored a read of the same block returns (`modbus_agreement`).
-/

namespace VPlc

open Bytes (be16 beBytes bit bitAt packBits)
open PlcMemory (Stored ReadsBits ReadsWords)

namespace ModbusServer

/-! ## Requests and replies -/

def IsException (reply : List UInt8) : Prop := bit (reply.getD 0 0) 7 = true

instance (reply : List UInt8) : Decidable (IsException reply) :=
  inferInstanceAs (Decidable (_ = _))

def writeArea? (functionCode : UInt8) : Option Area :=
  if functionCode = 0x05 ∨ functionCode = 0x0F then some .coil
  else if functionCode = 0x06 ∨ functionCode = 0x10 then some .hr
  else none

def readArea? (functionCode : UInt8) : Option Area :=
  if functionCode = 0x01 then some .coil
  else if functionCode = 0x02 then some .di
  else if functionCode = 0x03 then some .hr
  else if functionCode = 0x04 then some .ir
  else none

def points (request : List UInt8) : Nat :=
  if request.getD 0 0 = 0x05 ∨ request.getD 0 0 = 0x06 then 1
  else (be16 request 3).toNat

def value (request : List UInt8) (k : Nat) : UInt16 :=
  if request.getD 0 0 = 0x05 then if be16 request 3 = 0xFF00 then 1 else 0
  else if request.getD 0 0 = 0x06 then be16 request 3
  else if request.getD 0 0 = 0x0F then (bitAt (request.drop 6) k).toUInt16
  else be16 (request.drop 6) (2 * k)

/-- The reply to a read of `n` cells of `a`: the function code, the number of
data bytes, and data that spell `v`, bits from the lowest up with the last byte
filled with zeros, registers high byte first. -/
def Decodes (functionCode : UInt8) (a : Area) (n : Nat) (v : Nat → UInt16)
    (reply : List UInt8) : Prop :=
  ∃ data, reply = functionCode :: UInt8.ofNat data.length :: data ∧
    data.length ≤ 250 ∧
    if a.isBit then
      data.length = (n + 7) / 8 ∧
        (∀ k < n, (bitAt data k).toUInt16 = v k) ∧
        ∀ k, n ≤ k → k < 8 * data.length → bitAt data k = false
    else data.length = 2 * n ∧ ∀ k < n, be16 data (2 * k) = v k

/-- The largest quantity a read may ask for. -/
def readLimit (a : Area) : Nat := if a.isBit then 2000 else 125

theorem isException_make (functionCode exceptionCode : UInt8) :
    IsException (makeExceptionResponse functionCode exceptionCode) := by
  have h128 : Nat.testBit 128 7 = true := by decide
  simp [IsException, makeExceptionResponse, bit, h128]

theorem not_isException_echo {request : List UInt8}
    (h : bit (request.getD 0 0) 7 = false) : ¬ IsException (echo request) := by
  simp only [IsException, echo, List.getD_cons_zero, h]
  exact Bool.false_ne_true

theorem Decodes.congr {functionCode : UInt8} {a : Area} {n : Nat}
    {v v' : Nat → UInt16} {reply : List UInt8} (h : Decodes functionCode a n v reply)
    (hv : ∀ k < n, v k = v' k) : Decodes functionCode a n v' reply := by
  obtain ⟨data, rfl, hlen, hdata⟩ := h
  refine ⟨data, rfl, hlen, ?_⟩
  split at hdata
  · next ha =>
      rw [if_pos ha]
      exact ⟨hdata.1, fun k hk => (hdata.2.1 k hk).trans (hv k hk), hdata.2.2⟩
  · next ha =>
      rw [if_neg ha]
      exact ⟨hdata.1, fun k hk => (hdata.2 k hk).trans (hv k hk)⟩

/-! ## Reads -/

section Reads

variable {m : PlcMemory} {a : Area} {functionCode : UInt8}
  {startAddr quantityVal : UInt16}

/-- The two checks of a read. -/
def Admitted (startAddr quantityVal : UInt16) (limit size : Nat) : Prop :=
  (1 ≤ quantityVal.toNat ∧ quantityVal.toNat ≤ limit) ∧
    startAddr.toNat + quantityVal.toNat ≤ size

instance (startAddr quantityVal : UInt16) (limit size : Nat) :
    Decidable (Admitted startAddr quantityVal limit size) :=
  inferInstanceAs (Decidable (_ ∧ _))

theorem Admitted.ne_zero {limit size : Nat}
    (h : Admitted startAddr quantityVal limit size) : quantityVal ≠ 0 := by
  rintro rfl
  exact absurd h.1.1 (by decide)

theorem quantity_bad_iff {limit : UInt16} :
    (quantityVal < 1 ∨ quantityVal > limit) ↔
      ¬ (1 ≤ quantityVal.toNat ∧ quantityVal.toNat ≤ limit.toNat) := by
  rw [gt_iff_lt, UInt16.lt_iff_toNat_lt, UInt16.lt_iff_toNat_lt]
  show (quantityVal.toNat < 1 ∨ _) ↔ _
  omega

theorem readBits_refused {size : Nat} {read : UInt16 → UInt16 → List Bool}
    (h : ¬ Admitted startAddr quantityVal 2000 size) :
    IsException (readBits functionCode startAddr quantityVal size read) := by
  unfold readBits
  split
  · exact isException_make _ _
  · next hq =>
      rw [quantity_bad_iff, not_not] at hq
      have hsize : ¬ startAddr.toNat + quantityVal.toNat ≤ size := fun hs => h ⟨hq, hs⟩
      rw [if_pos (by omega)]
      exact isException_make _ _

theorem readRegisters_refused {size : Nat} {read : UInt16 → UInt16 → List UInt16}
    (h : ¬ Admitted startAddr quantityVal 125 size) :
    IsException (readRegisters functionCode startAddr quantityVal size read) := by
  unfold readRegisters
  split
  · exact isException_make _ _
  · next hq =>
      rw [quantity_bad_iff, not_not] at hq
      have hsize : ¬ startAddr.toNat + quantityVal.toNat ≤ size := fun hs => h ⟨hq, hs⟩
      rw [if_pos (by omega)]
      exact isException_make _ _

theorem readBits_decodes {size : Nat} {read : UInt16 → UInt16 → List Bool}
    (h : Admitted startAddr quantityVal 2000 size) (ha : a.isBit = true)
    (hread : ReadsBits m a startAddr.toNat quantityVal.toNat
      (read startAddr quantityVal)) :
    Decodes functionCode a quantityVal.toNat (fun k => m.get a (startAddr.toNat + k))
      (readBits functionCode startAddr quantityVal size read) := by
  obtain ⟨hq, hsize⟩ := h
  have hcount : (UInt8.ofNat ((quantityVal.toNat + 7) / 8)).toNat =
      (quantityVal.toNat + 7) / 8 := UInt8.toNat_ofNat_of_lt' (by
    show _ < 256
    omega)
  unfold readBits
  rw [if_neg (by rw [quantity_bad_iff, not_not]; exact hq), if_neg (by omega)]
  simp only [hcount, hread.length]
  refine ⟨packBits ((quantityVal.toNat + 7) / 8) fun idx =>
    decide (idx < quantityVal.toNat) && (read startAddr quantityVal).getD idx false,
    by rw [Bytes.length_packBits], ?_, ?_⟩
  · rw [Bytes.length_packBits]; omega
  · rw [if_pos ha, Bytes.length_packBits]
    refine ⟨rfl, fun k hk => ?_, fun k hk hlt => ?_⟩
    · rw [Bytes.bitAt_packBits (by omega), decide_eq_true hk, Bool.true_and]
      exact hread.value k hk
    · rw [Bytes.bitAt_packBits (by omega), decide_eq_false (by omega), Bool.false_and]

theorem readRegisters_decodes {size : Nat} {read : UInt16 → UInt16 → List UInt16}
    (h : Admitted startAddr quantityVal 125 size) (ha : a.isBit = false)
    (hread : ReadsWords m a startAddr.toNat quantityVal.toNat
      (read startAddr quantityVal)) :
    Decodes functionCode a quantityVal.toNat (fun k => m.get a (startAddr.toNat + k))
      (readRegisters functionCode startAddr quantityVal size read) := by
  obtain ⟨hq, hsize⟩ := h
  unfold readRegisters
  rw [if_neg (by rw [quantity_bad_iff, not_not]; exact hq), if_neg (by omega)]
  refine ⟨(read startAddr quantityVal).flatMap beBytes,
    by rw [Bytes.length_flatMap_beBytes, hread.length], ?_, ?_⟩
  · rw [Bytes.length_flatMap_beBytes, hread.length]; omega
  · rw [if_neg (by simp [ha]), Bytes.length_flatMap_beBytes, hread.length]
    refine ⟨rfl, fun k hk => ?_⟩
    have hword := Bytes.be16_flatMap (by rwa [hread.length] : k < _) []
    rw [List.append_nil] at hword
    rw [hword]
    exact hread.value k hk

theorem readBits_spec {size : Nat} {read : UInt16 → UInt16 → List Bool}
    (ha : a.isBit = true)
    (hread : quantityVal ≠ 0 → startAddr.toNat + quantityVal.toNat ≤ size →
      ReadsBits m a startAddr.toNat quantityVal.toNat (read startAddr quantityVal)) :
    if Admitted startAddr quantityVal 2000 size then
      Decodes functionCode a quantityVal.toNat (fun k => m.get a (startAddr.toNat + k))
        (readBits functionCode startAddr quantityVal size read)
    else IsException (readBits functionCode startAddr quantityVal size read) := by
  split
  · next h => exact readBits_decodes h ha (hread h.ne_zero h.2)
  · next h => exact readBits_refused h

theorem readRegisters_spec {size : Nat} {read : UInt16 → UInt16 → List UInt16}
    (ha : a.isBit = false)
    (hread : quantityVal ≠ 0 → startAddr.toNat + quantityVal.toNat ≤ size →
      ReadsWords m a startAddr.toNat quantityVal.toNat (read startAddr quantityVal)) :
    if Admitted startAddr quantityVal 125 size then
      Decodes functionCode a quantityVal.toNat (fun k => m.get a (startAddr.toNat + k))
        (readRegisters functionCode startAddr quantityVal size read)
    else IsException (readRegisters functionCode startAddr quantityVal size read) := by
  split
  · next h => exact readRegisters_decodes h ha (hread h.ne_zero h.2)
  · next h => exact readRegisters_refused h

end Reads

/-! ## Writes -/

/-- What became of a request. -/
inductive Outcome (m : PlcMemory) (request : List UInt8) :
    PlcMemory × List UInt8 → Prop
  | refused {reply} : IsException reply → Outcome m request (m, reply)
  | wrote {a m'} : writeArea? (request.getD 0 0) = some a →
      1 ≤ points request ∧ points request ≤ readLimit a →
      Stored m m' a (be16 request 1).toNat (points request) (value request) →
      Outcome m request (m', echo request)
  | read {a reply} : readArea? (request.getD 0 0) = some a →
      Decodes (request.getD 0 0) a (be16 request 3).toNat
        (fun k => m.get a ((be16 request 1).toNat + k)) reply →
      Outcome m request (m, reply)

section Writes

variable {m : PlcMemory} {request : List UInt8}

theorem writeSingleCoil_outcome (hfc : request.getD 0 0 = 0x05) :
    Outcome m request
      (writeSingleCoil m request (be16 request 1) (be16 request 3)) := by
  unfold writeSingleCoil
  split
  · exact .refused (isException_make _ _)
  · next hsize =>
      split
      · exact .refused (isException_make _ _)
      · next hval =>
          have hin : (be16 request 1).toNat < m.size .coil := Nat.lt_of_not_le hsize
          have hone : points request = 1 := by rw [points, if_pos (Or.inl hfc)]
          refine .wrote (a := .coil) (by rw [hfc]; rfl) (by rw [hone]; decide) ?_
          rw [PlcMemory.writeCoil_eq, hone]
          refine (Stored.set hin _).congr fun k _ => ?_
          rw [Area.norm_bit rfl, value, if_pos hfc]
          by_cases hon : be16 request 3 = 0xFF00
          · rw [if_pos hon, hon]
            rfl
          · rw [if_neg hon, beq_eq_false_iff_ne.mpr hon]
            rfl

theorem writeSingleRegister_outcome (hfc : request.getD 0 0 = 0x06) :
    Outcome m request
      (writeSingleRegister m request (be16 request 1) (be16 request 3)) := by
  unfold writeSingleRegister
  split
  · exact .refused (isException_make _ _)
  · next hsize =>
      have hin : (be16 request 1).toNat < m.size .hr := Nat.lt_of_not_le hsize
      have hone : points request = 1 := by rw [points, if_pos (Or.inr hfc)]
      refine .wrote (a := .hr) (by rw [hfc]; rfl) (by rw [hone]; decide) ?_
      rw [PlcMemory.writeHoldingRegister_eq, hone]
      refine (Stored.set hin _).congr fun k _ => ?_
      rw [Area.norm_of_word rfl, value, if_neg (by rw [hfc]; decide), if_pos hfc]

theorem length_requestCoils (quantityVal : UInt16) :
    (requestCoils request quantityVal).length = quantityVal.toNat := by
  rw [requestCoils, List.length_map, List.length_range]

theorem length_requestRegisters (quantityVal : UInt16) :
    (requestRegisters request quantityVal).length = quantityVal.toNat := by
  rw [requestRegisters, List.length_map, List.length_range]

/-- The byte index of the loop does not wrap below 2000 coils. -/
theorem getD_requestCoils {quantityVal : UInt16} (hq : quantityVal.toNat ≤ 2000)
    {k : Nat} (hk : k < quantityVal.toNat) :
    (requestCoils request quantityVal).getD k false = bitAt (request.drop 6) k := by
  have hidx : (UInt8.ofNat (6 + k / 8)).toNat = 6 + k / 8 :=
    UInt8.toNat_ofNat_of_lt' (by show _ < 256; omega)
  rw [List.getD_eq_getElem _ _ (by rwa [length_requestCoils])]
  simp only [requestCoils, List.getElem_map, List.getElem_range, hidx]
  rw [bitAt, Bytes.getD_drop]

theorem getD_requestRegisters {quantityVal : UInt16} {k : Nat}
    (hk : k < quantityVal.toNat) :
    (requestRegisters request quantityVal).getD k 0 =
      be16 (request.drop 6) (2 * k) := by
  rw [List.getD_eq_getElem _ _ (by rwa [length_requestRegisters])]
  simp only [requestRegisters, List.getElem_map, List.getElem_range]
  rw [Bytes.be16_drop, Nat.mul_comm]

theorem writeMultipleCoils_outcome (hfc : request.getD 0 0 = 0x0F) :
    Outcome m request
      (writeMultipleCoils m request (be16 request 1) (be16 request 3)) := by
  unfold writeMultipleCoils
  split
  · exact .refused (isException_make _ _)
  dsimp only
  split
  · exact .refused (isException_make _ _)
  split
  · exact .refused (isException_make _ _)
  next hq =>
      split
      · exact .refused (isException_make _ _)
      · next hsize =>
          rw [← or_assoc, not_or, quantity_bad_iff, not_not] at hq
          have hpoints : points request = (be16 request 3).toNat := by
            rw [points, if_neg (by rw [hfc]; decide)]
          have hin : (be16 request 1).toNat +
              (requestCoils request (be16 request 3)).length ≤ m.size .coil := by
            rw [length_requestCoils]
            exact Nat.le_of_not_lt hsize
          have hstored := PlcMemory.writeCoils_stored m (be16 request 1) hin
          rw [length_requestCoils] at hstored
          refine .wrote (a := .coil) (by rw [hfc]; rfl) (by rw [hpoints]; exact hq.1) ?_
          rw [hpoints]
          refine hstored.congr fun k hk => ?_
          rw [getD_requestCoils hq.1.2 hk, value, if_neg (by rw [hfc]; decide),
            if_neg (by rw [hfc]; decide), if_pos hfc]

theorem writeMultipleRegisters_outcome (hfc : request.getD 0 0 = 0x10) :
    Outcome m request
      (writeMultipleRegisters m request (be16 request 1) (be16 request 3)) := by
  unfold writeMultipleRegisters
  split
  · exact .refused (isException_make _ _)
  dsimp only
  split
  · exact .refused (isException_make _ _)
  split
  · exact .refused (isException_make _ _)
  next hq =>
      split
      · exact .refused (isException_make _ _)
      · next hsize =>
          rw [← or_assoc, not_or, quantity_bad_iff, not_not] at hq
          have hpoints : points request = (be16 request 3).toNat := by
            rw [points, if_neg (by rw [hfc]; decide)]
          have hq123 : (be16 request 3).toNat ≤ 123 := hq.1.2
          have hlimit : (be16 request 3).toNat ≤ readLimit .hr :=
            hq123.trans (by decide)
          have hin : (be16 request 1).toNat +
              (requestRegisters request (be16 request 3)).length ≤ m.size .hr := by
            rw [length_requestRegisters]
            exact Nat.le_of_not_lt hsize
          have hstored := PlcMemory.writeHoldingRegisters_stored m (be16 request 1) hin
          rw [length_requestRegisters] at hstored
          refine .wrote (a := .hr) (by rw [hfc]; rfl)
            (by rw [hpoints]; exact ⟨hq.1.1, hlimit⟩) ?_
          rw [hpoints]
          refine hstored.congr fun k hk => ?_
          rw [getD_requestRegisters hk, value, if_neg (by rw [hfc]; decide),
            if_neg (by rw [hfc]; decide), if_neg (by rw [hfc]; decide)]

end Writes

/-! ## Every request -/

section Requests

variable {m : PlcMemory} {request : List UInt8} {a : Area}

/-- A read changes nothing, and is answered if its quantity and its range
allow. -/
theorem processRequest_read (hlen : 5 ≤ request.length)
    (ha : readArea? (request.getD 0 0) = some a) :
    (processRequest m request).1 = m ∧
      if Admitted (be16 request 1) (be16 request 3) (readLimit a) (m.size a) then
        Decodes (request.getD 0 0) a (be16 request 3).toNat
          (fun k => m.get a ((be16 request 1).toNat + k)) (processRequest m request).2
      else IsException (processRequest m request).2 := by
  have hne : ¬ request.isEmpty = true := by
    rw [List.isEmpty_iff]
    rintro rfl
    exact absurd hlen (by decide)
  unfold readArea? at ha
  simp only [processRequest, if_neg hne, if_neg (Nat.not_lt.mpr hlen)]
  split at ha
  · next hfc =>
      cases ha
      rw [hfc]
      exact ⟨rfl, readBits_spec rfl PlcMemory.readCoils_reads⟩
  split at ha
  · next hfc =>
      cases ha
      rw [hfc]
      exact ⟨rfl, readBits_spec rfl PlcMemory.readDiscreteInputs_reads⟩
  split at ha
  · next hfc =>
      cases ha
      rw [hfc]
      exact ⟨rfl, readRegisters_spec rfl PlcMemory.readHoldingRegisters_reads⟩
  split at ha
  · next hfc =>
      cases ha
      rw [hfc]
      exact ⟨rfl, readRegisters_spec rfl PlcMemory.readInputRegisters_reads⟩
  · cases ha

theorem Outcome.ite {m : PlcMemory} {request : List UInt8} {p : Prop} [Decidable p]
    {x y : PlcMemory × List UInt8} (hx : p → Outcome m request x)
    (hy : ¬ p → Outcome m request y) : Outcome m request (if p then x else y) := by
  split
  · next h => exact hx h
  · next h => exact hy h

theorem processRequest_outcome (m : PlcMemory) (request : List UInt8) :
    Outcome m request (processRequest m request) := by
  by_cases hread : 5 ≤ request.length ∧ (readArea? (request.getD 0 0)).isSome = true
  · obtain ⟨hlen, hsome⟩ := hread
    obtain ⟨a, ha⟩ := Option.isSome_iff_exists.mp hsome
    obtain ⟨hmem, hreply⟩ := processRequest_read (m := m) hlen ha
    rw [← Prod.eta (processRequest m request), hmem]
    split at hreply
    · exact .read ha hreply
    · exact .refused hreply
  · unfold processRequest
    refine .ite (fun _ => .refused (isException_make _ _)) fun _ => ?_
    dsimp only
    refine .ite (fun _ => .refused (isException_make _ _)) fun hlen => ?_
    have hnone : readArea? (request.getD 0 0) = none := by
      rw [← Option.not_isSome_iff_eq_none]
      exact fun hsome => hread ⟨Nat.le_of_not_lt hlen, hsome⟩
    have hno : ∀ {c : UInt8}, (readArea? c).isSome = true → request.getD 0 0 ≠ c := by
      rintro c hc rfl
      rw [hnone] at hc
      exact absurd hc (by decide)
    rw [if_neg (hno rfl), if_neg (hno rfl), if_neg (hno rfl), if_neg (hno rfl)]
    refine .ite (fun hfc => writeSingleCoil_outcome hfc) fun _ => ?_
    refine .ite (fun hfc => writeSingleRegister_outcome hfc) fun _ => ?_
    refine .ite (fun hfc => writeMultipleCoils_outcome hfc) fun _ => ?_
    exact .ite (fun hfc => writeMultipleRegisters_outcome hfc)
      fun _ => .refused (isException_make _ _)

/-- No function code both reads and writes, and none is an exception. -/
theorem of_writeArea? {c : UInt8} (h : writeArea? c = some a) :
    readArea? c = none ∧ bit c 7 = false := by
  unfold writeArea? at h
  split at h
  · next hc => rcases hc with rfl | rfl <;> exact ⟨by decide, by decide⟩
  split at h
  · next hc => rcases hc with rfl | rfl <;> exact ⟨by decide, by decide⟩
  · cases h

theorem of_readArea? {c : UInt8} (h : readArea? c = some a) :
    writeArea? c = none ∧ bit c 7 = false := by
  have hnone : writeArea? c = none := by
    cases hw : writeArea? c with
    | none => rfl
    | some b =>
        rw [(of_writeArea? hw).1] at h
        cases h
  refine ⟨hnone, ?_⟩
  unfold readArea? at h
  split at h
  · next hc => rw [hc]; decide
  split at h
  · next hc => rw [hc]; decide
  split at h
  · next hc => rw [hc]; decide
  split at h
  · next hc => rw [hc]; decide
  · cases h

theorem read_stored {m' : PlcMemory} {read : List UInt8}
    (h : Stored m m' a (be16 request 1).toNat (points request) (value request))
    (hpoints : 1 ≤ points request ∧ points request ≤ readLimit a)
    (hlen : 5 ≤ read.length) (hread : readArea? (read.getD 0 0) = some a)
    (hstart : be16 read 1 = be16 request 1)
    (hquantity : (be16 read 3).toNat = points request) :
    (processRequest m' read).1 = m' ∧
      Decodes (read.getD 0 0) a (points request) (value request)
        (processRequest m' read).2 := by
  have hadm : Admitted (be16 read 1) (be16 read 3) (readLimit a) (m'.size a) := by
    refine ⟨by rw [hquantity]; exact hpoints, ?_⟩
    rw [hstart, hquantity, h.size]
    exact h.inRange
  obtain ⟨hmem, hreply⟩ := processRequest_read (m := m') hlen hread
  rw [if_pos hadm, hquantity, hstart] at hreply
  exact ⟨hmem, hreply.congr fun k hk => h.written k hk⟩

end Requests

/-- An exception leaves the memory alone; a write that is acknowledged has
stored its block and touched nothing else, and a read of that block returns it;
a read changes nothing, and it returns the cells if its quantity and its range
allow, and an exception if they do not. -/
theorem modbus_agreement (m : PlcMemory) (request : List UInt8) :
    let r := processRequest m request
    let functionCode := request.getD 0 0
    let start := (be16 request 1).toNat
    (IsException r.2 → r.1 = m) ∧
      (¬ IsException r.2 →
        (∃ a, writeArea? functionCode = some a ∨ readArea? functionCode = some a) ∧
        (∀ a, writeArea? functionCode = some a →
          Stored m r.1 a start (points request) (value request) ∧
            ∀ read, 5 ≤ read.length → readArea? (read.getD 0 0) = some a →
              be16 read 1 = be16 request 1 →
              (be16 read 3).toNat = points request →
              (processRequest r.1 read).1 = r.1 ∧
                Decodes (read.getD 0 0) a (points request) (value request)
                  (processRequest r.1 read).2) ∧
        ∀ a, readArea? functionCode = some a →
          r.1 = m ∧ Decodes functionCode a (be16 request 3).toNat
            (fun k => m.get a (start + k)) r.2) ∧
      ∀ a, 5 ≤ request.length → readArea? functionCode = some a →
        r.1 = m ∧
          if Admitted (be16 request 1) (be16 request 3) (readLimit a) (m.size a) then
            Decodes functionCode a (be16 request 3).toNat (fun k => m.get a (start + k)) r.2
          else IsException r.2 := by
  have hreads (a : Area) (hlen : 5 ≤ request.length) (ha : readArea? (request.getD 0 0) = some a) :=
    processRequest_read (m := m) hlen ha
  have houtcome := processRequest_outcome m request
  obtain ⟨r, hr⟩ : ∃ r, processRequest m request = r := ⟨_, rfl⟩
  rw [hr] at houtcome hreads ⊢
  dsimp only
  cases houtcome with
  | refused hexc => exact ⟨fun _ => rfl, fun hno => absurd hexc hno, hreads⟩
  | wrote ha hpoints hstored =>
      obtain ⟨hnone, hbit⟩ := of_writeArea? ha
      refine ⟨fun hexc => absurd hexc (not_isException_echo hbit),
        fun _ => ⟨⟨_, Or.inl ha⟩, fun b hb => ?_, fun b hb => ?_⟩, hreads⟩
      · cases ha.symm.trans hb
        exact ⟨hstored, fun read => read_stored hstored hpoints⟩
      · rw [hnone] at hb
        cases hb
  | read ha hreply =>
      obtain ⟨hnone, hbit⟩ := of_readArea? ha
      refine ⟨fun _ => rfl, fun _ => ⟨⟨_, Or.inr ha⟩, fun b hb => ?_, fun b hb => ?_⟩, hreads⟩
      · rw [hnone] at hb
        cases hb
      · cases ha.symm.trans hb
        exact ⟨rfl, hreply⟩

end ModbusServer

end VPlc
