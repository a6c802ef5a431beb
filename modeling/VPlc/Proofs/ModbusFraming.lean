import VPlc.Proofs.ModbusSpec

/-!
# The MBAP length window

`handleClient` takes a frame if its length field is between 2 and 250, the unit
identifier counted, so a PDU of 1 to 249 bytes. `processRequest` has no such
bound. It accepts register writes of up to 123 values and coil writes of up to
2000, and the longest of these are 252 and 256 bytes. `modbus_framing_iff` draws
the line: a request in the gap ends the connection, and nothing of it reaches the
memory.
-/

namespace VPlc

open Bytes (be16 beBytes)
open Net (Arrives Session)

namespace ModbusServer

/-- A request as a client sends it. -/
structure Adu where
  transactionId : UInt16
  unitId : UInt8
  pdu : List UInt8

namespace Adu

/-- The frame: protocol identifier zero, the length one more than the PDU's. -/
def wire (b : Adu) : List UInt8 :=
  mbap b.transactionId 0 (UInt16.ofNat (b.pdu.length + 1)) b.unitId ++ b.pdu

/-- The reply as it goes back. -/
def frame (b : Adu) : List UInt8 → List UInt8 := respond b.transactionId 0 b.unitId

end Adu

section Header

variable (transactionId protocolId length : UInt16) (unitId : UInt8)

@[simp] theorem length_mbap : (mbap transactionId protocolId length unitId).length = 7 :=
  rfl

theorem transactionId_mbap :
    be16 (mbap transactionId protocolId length unitId) 0 = transactionId :=
  Bytes.be16_beBytes _ _

theorem protocolId_mbap :
    be16 (mbap transactionId protocolId length unitId) 2 = protocolId :=
  Bytes.be16_at _ _ _ rfl

theorem length_field_mbap :
    be16 (mbap transactionId protocolId length unitId) 4 = length := by
  rw [mbap, ← List.append_assoc]
  exact Bytes.be16_at _ _ _ rfl

theorem unitId_mbap :
    (mbap transactionId protocolId length unitId).getD 6 0 = unitId := rfl

end Header

section Turn

variable {sends : Nat → Bool} {s : Session PlcMemory} {b : Adu} {rest : List UInt8}

theorem recv_header (h : Arrives s.incoming (b.wire ++ rest)) :
    ∃ cs, Net.recvExact 7 s.incoming =
        (some (mbap b.transactionId 0 (UInt16.ofNat (b.pdu.length + 1)) b.unitId), cs) ∧
      Arrives cs (b.pdu ++ rest) := by
  rw [Adu.wire, List.append_assoc] at h
  exact h.recvExact

theorem window_iff {n : Nat} (h : n < 65536) :
    (UInt16.ofNat n < 2 ∨ UInt16.ofNat n > 250) ↔ n < 2 ∨ 250 < n := by
  have hn : (UInt16.ofNat n).toNat = n := UInt16.toNat_ofNat_of_lt' h
  rw [gt_iff_lt, UInt16.lt_iff_toNat_lt, UInt16.lt_iff_toNat_lt, hn]
  rfl

/-- A frame in the window is processed whole and answered. -/
theorem turn_delivers (hpos : 1 ≤ b.pdu.length) (hle : b.pdu.length ≤ 249) :
    Session.Delivers processRequest Adu.frame Adu.wire Adu.pdu sends (turn sends) b := by
  intro s rest h
  obtain ⟨cs, hheader, hcs⟩ := recv_header h
  obtain ⟨cs', hpdu, hrest⟩ := hcs.recvExact
  refine ⟨cs', hrest, ?_⟩
  have hn : (UInt16.ofNat (b.pdu.length + 1)).toNat - 1 = b.pdu.length := by
    rw [UInt16.toNat_ofNat_of_lt' (by show _ < 65536; omega), Nat.add_sub_cancel]
  have hwin : ¬ (UInt16.ofNat (b.pdu.length + 1) < 2 ∨
      UInt16.ofNat (b.pdu.length + 1) > 250) := by
    rw [window_iff (by omega)]
    omega
  simp only [turn, hheader, transactionId_mbap, protocolId_mbap, length_field_mbap,
    unitId_mbap, ne_eq, not_true_eq_false, if_false, if_neg hwin, hn, hpdu]
  rfl

/-- A frame past the window ends the connection. -/
theorem turn_drops (hgt : 249 < b.pdu.length) (hlt : b.pdu.length < 65535)
    (h : Arrives s.incoming (b.wire ++ rest)) :
    ∃ cs, turn sends s = ({ s with incoming := cs }, false) := by
  obtain ⟨cs, hheader, -⟩ := recv_header h
  refine ⟨cs, ?_⟩
  have hwin : UInt16.ofNat (b.pdu.length + 1) < 2 ∨
      UInt16.ofNat (b.pdu.length + 1) > 250 := by
    rw [window_iff (by omega)]
    omega
  simp only [turn, hheader, protocolId_mbap, length_field_mbap, ne_eq,
    not_true_eq_false, if_false, if_pos hwin]

theorem turn_ends : Session.Ends (turn sends) := by
  rintro ⟨state, _, requests, outgoing⟩ rfl
  rfl

end Turn

/-- Only a request of five bytes or more is answered with anything but an
exception. -/
theorem length_of_accepted {m : PlcMemory} {pdu : List UInt8}
    (h : ¬ IsException (processRequest m pdu).2) : 5 ≤ pdu.length := by
  refine Nat.le_of_not_lt fun hlt => h ?_
  simp only [processRequest, if_pos hlt]
  split <;> exact isException_make _ _

/-- A connection of frames in the window delivers their requests: each once, in
order, whole, however `recv` cuts the stream. -/
theorem handleClient_delivers {sends : Nat → Bool} {bs : List Adu} {turns : Nat}
    {m : PlcMemory} {incoming : List (List UInt8)}
    (hfits : ∀ b ∈ bs, 1 ≤ b.pdu.length ∧ b.pdu.length ≤ 249)
    (hturns : bs.length ≤ turns) (hsends : ∀ i, i + 1 < bs.length → sends i = true)
    (h : Arrives incoming (bs.flatMap Adu.wire)) :
    (handleClient sends turns m incoming).requests = bs.map Adu.pdu ∧
      (handleClient sends turns m incoming).state =
        (bs.map Adu.pdu).foldl (fun m r => (processRequest m r).1) m := by
  have hturn : ∀ b ∈ bs, Session.Delivers processRequest Adu.frame Adu.wire Adu.pdu
      sends (turn sends) b := fun b hb => turn_delivers (hfits b hb).1 (hfits b hb).2
  exact Session.start_delivers turn_ends hturn hturns m hsends h

/-- The next turn processes the request it finds, sends the reply and has taken
the frame off the stream, no more and no less. -/
def Served (sends : Nat → Bool) (s : Session PlcMemory) (b : Adu)
    (rest : List UInt8) : Prop :=
  ∃ cs, Arrives cs rest ∧
    turn sends s = (Session.serve processRequest b.frame { s with incoming := cs } b.pdu,
      sends s.outgoing.length)

theorem served_of_le {sends : Nat → Bool} {s : Session PlcMemory} {b : Adu}
    {rest : List UInt8} (harrives : Arrives s.incoming (b.wire ++ rest))
    (hpos : 1 ≤ b.pdu.length) (hle : b.pdu.length ≤ 249) : Served sends s b rest :=
  turn_delivers hpos hle s rest harrives

theorem not_served_of_gt {sends : Nat → Bool} {s : Session PlcMemory} {b : Adu}
    {rest : List UInt8} (harrives : Arrives s.incoming (b.wire ++ rest))
    (hgt : 249 < b.pdu.length) (hlt : b.pdu.length < 65535) :
    ¬ Served sends s b rest := by
  rintro ⟨cs, -, hturn⟩
  obtain ⟨cs', hdrop⟩ : ∃ cs, turn sends s = ({ s with incoming := cs }, false) :=
    turn_drops hgt hlt harrives
  -- a turn that drops the connection leaves the list of requests as it was
  have hrequests := congrArg (fun r => r.1.requests.length) (hdrop.symm.trans hturn)
  simp [Session.serve] at hrequests

/-- A request that would be accepted is served exactly if its PDU is at most
249 bytes. -/
theorem modbus_framing_iff (sends : Nat → Bool) (s : Session PlcMemory) (b : Adu)
    (rest : List UInt8) (harrives : Arrives s.incoming (b.wire ++ rest))
    (hlen : b.pdu.length ≤ 253)
    (hok : ¬ IsException (processRequest s.state b.pdu).2) :
    Served sends s b rest ↔ b.pdu.length ≤ 249 := by
  have hpos := length_of_accepted hok
  constructor
  · intro hserved
    refine Nat.le_of_not_lt fun hgt => ?_
    exact not_served_of_gt harrives hgt (by omega) hserved
  · exact served_of_le harrives (by omega)

/-! ## The longest register writes -/

/-- The request that writes `values` from register `start` on. -/
def writeRegistersPdu (start : UInt16) (values : List UInt16) : List UInt8 :=
  0x10 :: (beBytes start ++ (beBytes (UInt16.ofNat values.length) ++
    (UInt8.ofNat (2 * values.length) :: values.flatMap beBytes)))

theorem length_writeRegistersPdu (start : UInt16) (values : List UInt16) :
    (writeRegistersPdu start values).length = 6 + 2 * values.length := by
  simp only [writeRegistersPdu, List.length_cons, List.length_append,
    Bytes.length_beBytes, Bytes.length_flatMap_beBytes]
  omega

theorem writeRegisters_accepted {m : PlcMemory} {start : UInt16}
    {values : List UInt16} (hpos : 1 ≤ values.length) (hle : values.length ≤ 123)
    (hin : start.toNat + values.length ≤ m.getHoldingRegistersSize) :
    ¬ IsException (processRequest m (writeRegistersPdu start values)).2 := by
  have hlen := length_writeRegistersPdu start values
  have hstart : be16 (writeRegistersPdu start values) 1 = start :=
    Bytes.be16_at [0x10] _ _ rfl
  have hquantity : be16 (writeRegistersPdu start values) 3 =
      UInt16.ofNat values.length := Bytes.be16_at (0x10 :: beBytes start) _ _ rfl
  have hn : (UInt16.ofNat values.length).toNat = values.length :=
    UInt16.toNat_ofNat_of_lt' (by show _ < 65536; omega)
  have hcount : (UInt8.ofNat (2 * values.length)).toNat = 2 * values.length :=
    UInt8.toNat_ofNat_of_lt' (by show _ < 256; omega)
  have hbyteCount : (writeRegistersPdu start values).getD 5 0 =
      UInt8.ofNat (2 * values.length) := rfl
  have hbad : ¬ (UInt16.ofNat values.length < 1 ∨ UInt16.ofNat values.length > 123 ∨
      (UInt8.ofNat (2 * values.length)).toNat ≠ 2 * (UInt16.ofNat values.length).toNat) := by
    rw [← or_assoc, quantity_bad_iff, hcount, hn]
    show ¬ (¬ (1 ≤ values.length ∧ values.length ≤ 123) ∨ _)
    omega
  have haccepted : processRequest m (writeRegistersPdu start values) =
      (m.writeHoldingRegisters start (requestRegisters (writeRegistersPdu start values)
        (UInt16.ofNat values.length)), echo (writeRegistersPdu start values)) := by
    have hfc : processRequest m (writeRegistersPdu start values) =
        if (writeRegistersPdu start values).length < 5 then
          (m, makeExceptionResponse 0x10 0x03)
        else writeMultipleRegisters m (writeRegistersPdu start values)
          (be16 (writeRegistersPdu start values) 1)
          (be16 (writeRegistersPdu start values) 3) := rfl
    rw [hfc, if_neg (by omega), hstart, hquantity, writeMultipleRegisters,
      if_neg (by omega)]
    dsimp only
    rw [hbyteCount, hcount, if_neg (by omega)]
    rw [hcount] at hbad
    rw [if_neg hbad, hn, if_neg (by omega)]
  have hbit : Bytes.bit 0x10 7 = false := by decide
  rw [haccepted]
  exact not_isException_echo hbit

/-- Of the register writes the processor accepts, those of 122 and 123 values do
not get through. -/
theorem registers_served_iff {sends : Nat → Bool} {s : Session PlcMemory}
    {b : Adu} {rest : List UInt8} {start : UInt16} {values : List UInt16}
    (harrives : Arrives s.incoming (b.wire ++ rest))
    (hpdu : b.pdu = writeRegistersPdu start values) (hle : values.length ≤ 123) :
    Served sends s b rest ↔ values.length ≤ 121 := by
  have hlen : b.pdu.length = 6 + 2 * values.length := by
    rw [hpdu, length_writeRegistersPdu]
  constructor
  · intro hserved
    refine Nat.le_of_not_lt fun hgt => ?_
    exact not_served_of_gt harrives (by omega) (by omega) hserved
  · exact fun hle => served_of_le harrives (by omega) (by omega)

/-- A client that writes `n` registers of a store as `main` builds it, all in
one chunk. -/
def zerosAdu (n : Nat) : Adu := ⟨1, 1, writeRegistersPdu 0 (List.replicate n 0)⟩

def zerosSession (n : Nat) : Session PlcMemory :=
  Session.start PlcMemory.default [(zerosAdu n).wire]

theorem zerosSession_arrives (n : Nat) :
    Arrives (zerosSession n).incoming ((zerosAdu n).wire ++ []) :=
  .cons (by simp [Adu.wire, mbap, Bytes.beBytes]) .nil

theorem zerosAdu_accepted {n : Nat} (hpos : 1 ≤ n) (hle : n ≤ 123) :
    ¬ IsException (processRequest (zerosSession n).state (zerosAdu n).pdu).2 := by
  have hsize : PlcMemory.default.getHoldingRegistersSize = 1024 := Array.size_replicate
  refine writeRegisters_accepted (by simpa using hpos) (by simpa using hle) ?_
  rw [List.length_replicate, zerosSession, Session.start, hsize]
  show 0 + n ≤ 1024
  omega

theorem length_zerosAdu (n : Nat) : (zerosAdu n).pdu.length = 6 + 2 * n := by
  rw [zerosAdu, length_writeRegistersPdu, List.length_replicate]

/-- A single register gets through. -/
theorem modbus_framing_one :
    Served (fun _ => true) (zerosSession 1) (zerosAdu 1) [] :=
  (modbus_framing_iff (fun _ => true) (zerosSession 1) (zerosAdu 1) []
    (zerosSession_arrives 1) (by rw [length_zerosAdu]; decide)
    (zerosAdu_accepted (by decide) (by decide))).mpr
    (by rw [length_zerosAdu]; decide)

/-- The longest register write the processor accepts is dropped. -/
theorem modbus_framing_fails :
    ¬ ∀ (sends : Nat → Bool) (s : Session PlcMemory) (b : Adu) (rest : List UInt8),
      Arrives s.incoming (b.wire ++ rest) → b.pdu.length ≤ 253 →
      ¬ IsException (processRequest s.state b.pdu).2 → Served sends s b rest := by
  intro h
  have hserved := h (fun _ => true) (zerosSession 123) (zerosAdu 123) []
    (zerosSession_arrives 123) (by rw [length_zerosAdu]; decide)
    (zerosAdu_accepted (by decide) (by decide))
  refine not_served_of_gt (zerosSession_arrives 123) ?_ ?_ hserved
  · rw [length_zerosAdu]; decide
  · rw [length_zerosAdu]; decide

end ModbusServer

end VPlc
