import VPlc.Mc.Server
import VPlc.Net.Segmentation
import VPlc.Proofs.ModbusAccess
import VPlc.Proofs.ModbusFraming

/-!
# Framing does not depend on segmentation

Both servers read the stream through the same loop: so many bytes for a header,
so many more for what the header announces (`turn_eq_framed`). So what they take
for requests, what they answer, and when they give up depends on the bytes a client
sends and not on how `recv` hands them over, whatever the bytes are.

On a stream that is nothing but frames with admissible headers, the requests are
the frames and the replies are one to each. A Modbus reply repeats the identifiers
of its request and says how long it is; that the length fits its field is a
matter of how long a reply can be (`length_processRequest_le`).
-/

namespace VPlc

open Bytes (be16 le16 beBytes leBytes)
open Net (Arrives Session)
open Net.Session (answers)

/-- Every `send` goes through. -/
def sendsAll : Nat → Bool := fun _ => true

namespace ModbusServer

/-- How many bytes of PDU a header announces, if it is admissible. -/
def announces (header : List UInt8) : Option Nat :=
  if be16 header 2 ≠ 0 then none
  else if be16 header 4 < 2 ∨ be16 header 4 > 250 then none
  else some ((be16 header 4).toNat - 1)

theorem turn_eq_framed (sends : Nat → Bool) :
    turn sends = Session.framed 7 announces processRequest
      (fun header => respond (be16 header 0) (be16 header 2) (header.getD 6 0))
      (fun _ pdu => pdu) sends := by
  funext s
  obtain ⟨⟨header?, cs⟩, hr⟩ : ∃ r, Net.recvExact 7 s.incoming = r := ⟨_, rfl⟩
  rw [turn, Session.framed, hr]
  cases header? with
  | none => rfl
  | some header =>
      dsimp only [announces]
      split
      · rfl
      · split <;> rfl

/-! ## Replies -/

theorem length_processRequest_le (m : PlcMemory) (request : List UInt8) :
    (processRequest m request).2.length ≤ 253 := by
  cases request with
  | nil => exact Nat.le_of_ble_eq_true rfl
  | cons b bs => exact (processRequest_shaped m (List.cons_ne_nil b bs)).length_le

/-- The reply repeats the identifiers of its request and its length field counts
what follows it. -/
theorem frame_header (b : Adu) {pdu : List UInt8} (h : pdu.length ≤ 253) :
    be16 (b.frame pdu) 0 = b.transactionId ∧ (b.frame pdu).getD 6 0 = b.unitId ∧
      (be16 (b.frame pdu) 4).toNat = ((b.frame pdu).drop 6).length := by
  have hframe : b.frame pdu = beBytes b.transactionId ++ (beBytes 0 ++
      (beBytes (UInt16.ofNat (pdu.length + 1)) ++ (b.unitId :: pdu))) := by
    simp only [Adu.frame, respond, mbap, List.append_assoc]
    rfl
  refine ⟨?_, ?_, ?_⟩
  · rw [hframe]
    exact Bytes.be16_beBytes _ _
  · rw [hframe]
    rfl
  · have hlength : be16 (b.frame pdu) 4 = UInt16.ofNat (pdu.length + 1) := by
      rw [hframe, ← List.append_assoc]
      exact Bytes.be16_at _ _ _ rfl
    rw [hlength, UInt16.toNat_ofNat_of_lt' (by show _ < 65536; omega), hframe]
    rfl

end ModbusServer

namespace McServer

/-- How many bytes a header announces, if it is admissible. -/
def announces (header : List UInt8) : Option Nat :=
  if header.getD 0 0 ≠ 0x50 ∨ header.getD 1 0 ≠ 0x00 then none
  else if le16 header 7 = 0 ∨ le16 header 7 > 2048 then none
  else some (le16 header 7).toNat

theorem turn_eq_framed (sends : Nat → Bool) :
    turn sends = Session.framed 9 announces processRequest (fun _ => id)
      (fun header body => header ++ body) sends := by
  funext s
  obtain ⟨⟨header?, cs⟩, hr⟩ : ∃ r, Net.recvExact 9 s.incoming = r := ⟨_, rfl⟩
  rw [turn, Session.framed, hr]
  cases header? with
  | none => rfl
  | some header =>
      dsimp only [announces]
      split
      · rfl
      · split <;> rfl

/-- A request with an admissible header: the subheader, five bytes of access
route, and a length from 1 to 2048. -/
structure Frame where
  access : List UInt8
  body : List UInt8
  length_access : access.length = 5
  pos : 1 ≤ body.length
  le : body.length ≤ 2048

/-- The frame as a client sends it. -/
def Frame.wire (f : Frame) : List UInt8 :=
  0x50 :: 0x00 :: f.access ++ (leBytes (UInt16.ofNat f.body.length) ++ f.body)

/-- The whole frame is the request, and the reply goes back as it is. -/
theorem turn_delivers (sends : Nat → Bool) (f : Frame) :
    Session.Delivers processRequest (fun _ => id) Frame.wire Frame.wire sends
      (turn sends) f := by
  intro s rest h
  obtain ⟨header, hheader⟩ : ∃ header, header =
    0x50 :: 0x00 :: f.access ++ leBytes (UInt16.ofNat f.body.length) := ⟨_, rfl⟩
  have hwire : f.wire = header ++ f.body := by
    rw [hheader, Frame.wire, List.append_assoc]
  have hlen : header.length = 9 := by
    rw [hheader]
    simp [f.length_access]
  have hsize : le16 header 7 = UInt16.ofNat f.body.length := by
    rw [hheader, ← List.append_nil (leBytes _)]
    exact Bytes.le16_at _ _ _ (by simp [f.length_access])
  have hn : (UInt16.ofNat f.body.length).toNat = f.body.length :=
    UInt16.toNat_ofNat_of_lt' (by have := f.le; show _ < 65536; omega)
  have hwin : ¬ (UInt16.ofNat f.body.length = 0 ∨ UInt16.ofNat f.body.length > 2048) := by
    have hpos := f.pos
    have hle := f.le
    rw [gt_iff_lt, UInt16.lt_iff_toNat_lt, ← UInt16.toNat_inj, hn]
    show ¬ (f.body.length = 0 ∨ 2048 < f.body.length)
    omega
  have hsub : ¬ (header.getD 0 0 ≠ 0x50 ∨ header.getD 1 0 ≠ 0x00) := by
    rw [hheader]
    simp
  rw [hwire, List.append_assoc] at h
  obtain ⟨cs, hr, hcs⟩ := h.recvExact
  obtain ⟨cs', hr', hrest⟩ := hcs.recvExact
  refine ⟨cs', hrest, ?_⟩
  rw [hlen] at hr
  simp only [turn, hr, if_neg hsub, hsize, if_neg hwin, hn, hr', hwire]

theorem turn_ends (sends : Nat → Bool) : Session.Ends (turn sends) := by
  rintro ⟨state, _, requests, outgoing⟩ rfl
  rfl

/-- A connection of frames is served frame by frame. -/
theorem handleClient_answers (m : PlcMemory) {fs : List Frame} {n : Nat}
    {pieces : List (List UInt8)} (h : Arrives pieces (fs.flatMap Frame.wire))
    (hn : fs.length ≤ n) :
    (handleClient sendsAll n m pieces).requests = fs.map Frame.wire ∧
      (handleClient sendsAll n m pieces).outgoing =
        answers processRequest (fun _ => id) Frame.wire m fs := by
  have hturn : ∀ f ∈ fs, Session.Delivers processRequest (fun _ => id) Frame.wire
      Frame.wire sendsAll (turn sendsAll) f := fun f _ => turn_delivers sendsAll f
  have hrequests := Session.start_delivers (turn_ends sendsAll) hturn hn m
    (fun _ _ => rfl) h
  have houtgoing := Session.run_answers (turn_ends sendsAll) hturn (fun _ => rfl) hn
    (Session.start m pieces) h
  exact ⟨hrequests.1, houtgoing⟩

end McServer

namespace ModbusServer

/-- A connection of frames in the window is served frame by frame. -/
theorem handleClient_answers (m : PlcMemory) {bs : List Adu} {n : Nat}
    {pieces : List (List UInt8)}
    (hfits : ∀ b ∈ bs, 1 ≤ b.pdu.length ∧ b.pdu.length ≤ 249)
    (h : Arrives pieces (bs.flatMap Adu.wire)) (hn : bs.length ≤ n) :
    (handleClient sendsAll n m pieces).requests = bs.map Adu.pdu ∧
      (handleClient sendsAll n m pieces).outgoing =
        answers processRequest Adu.frame Adu.pdu m bs := by
  have hturn : ∀ b ∈ bs, Session.Delivers processRequest Adu.frame Adu.wire Adu.pdu
      sendsAll (turn sendsAll) b := fun b hb => turn_delivers (hfits b hb).1 (hfits b hb).2
  have hrequests : (handleClient sendsAll n m pieces).requests = bs.map Adu.pdu :=
    (handleClient_delivers hfits hn (fun _ _ => rfl) h).1
  have houtgoing := Session.run_answers turn_ends hturn (fun _ => rfl) hn
    (Session.start m pieces) h
  exact ⟨hrequests, houtgoing⟩

end ModbusServer

open ModbusServer (Adu) in
open McServer (Frame) in
/-- Modbus and MC connections do not depend on how the stream is cut, and a
stream of frames is answered frame by frame. -/
theorem tcp_framing (m : PlcMemory) :
    Session.SegmentationFree (ModbusServer.turn sendsAll) m ∧
    Session.SegmentationFree (McServer.turn sendsAll) m ∧
    (∀ (bs : List Adu) (pieces : List (List UInt8)) (n : Nat),
      (∀ b ∈ bs, 1 ≤ b.pdu.length ∧ b.pdu.length ≤ 249) →
      Arrives pieces (bs.flatMap Adu.wire) → bs.length ≤ n →
      let s := ModbusServer.handleClient sendsAll n m pieces
      s.requests = bs.map Adu.pdu ∧
      s.outgoing = answers ModbusServer.processRequest Adu.frame Adu.pdu m bs ∧
      s.outgoing.length = bs.length ∧
      ∀ (i : Nat) (b : Adu) (r : List UInt8), bs[i]? = some b → s.outgoing[i]? = some r →
        be16 r 0 = b.transactionId ∧ r.getD 6 0 = b.unitId ∧
          (be16 r 4).toNat = (r.drop 6).length) ∧
    ∀ (fs : List Frame) (pieces : List (List UInt8)) (n : Nat),
      Arrives pieces (fs.flatMap Frame.wire) → fs.length ≤ n →
      let s := McServer.handleClient sendsAll n m pieces
      s.requests = fs.map Frame.wire ∧
      s.outgoing = answers McServer.processRequest (fun _ => id) Frame.wire m fs ∧
      s.outgoing.length = fs.length := by
  have hmodbus : Session.SegmentationFree (ModbusServer.turn sendsAll) m := by
    rw [ModbusServer.turn_eq_framed]
    exact Session.framed_segmentationFree (by decide) m
  have hmc : Session.SegmentationFree (McServer.turn sendsAll) m := by
    rw [McServer.turn_eq_framed]
    exact Session.framed_segmentationFree (by decide) m
  refine ⟨hmodbus, hmc, ?_, ?_⟩
  · intro bs pieces n hfits h hn s
    obtain ⟨hrequests, houtgoing⟩ := ModbusServer.handleClient_answers m hfits h hn
    refine ⟨hrequests, houtgoing, ?_, ?_⟩
    · show (ModbusServer.handleClient sendsAll n m pieces).outgoing.length = bs.length
      rw [houtgoing, Session.length_answers]
    · intro i b r hb hr
      rw [show s.outgoing = _ from houtgoing] at hr
      obtain ⟨m', rfl⟩ := Session.answers_getElem? hb hr
      exact ModbusServer.frame_header b (ModbusServer.length_processRequest_le m' b.pdu)
  · intro fs pieces n h hn s
    obtain ⟨hrequests, houtgoing⟩ := McServer.handleClient_answers m h hn
    refine ⟨hrequests, houtgoing, ?_⟩
    show (McServer.handleClient sendsAll n m pieces).outgoing.length = fs.length
    rw [houtgoing, Session.length_answers]

open ModbusServer (Adu) in
/-- A read of one register that arrives in two pieces, cut inside its header. -/
theorem tcp_framing_two :
    let frame : Adu := ⟨7, 1, [0x03, 0, 0, 0, 1]⟩
    let s := ModbusServer.handleClient sendsAll 1 PlcMemory.default
      [frame.wire.take 3, frame.wire.drop 3]
    s.requests = [frame.pdu] ∧ s.outgoing.length = 1 := by
  intro frame s
  have h : Arrives [frame.wire.take 3, frame.wire.drop 3] ([frame].flatMap Adu.wire) := by
    refine ⟨rfl, ?_⟩
    intro c hc
    rcases List.mem_cons.mp hc with rfl | hc
    · exact List.cons_ne_nil _ _
    · rw [List.mem_singleton.mp hc]
      exact List.cons_ne_nil _ _
  obtain ⟨-, -, hmodbus, -⟩ := tcp_framing PlcMemory.default
  obtain ⟨hrequests, -, hlength, -⟩ := hmodbus [frame] _ 1
    (List.forall_mem_singleton.mpr ⟨by simp [frame], by simp [frame]⟩) h le_rfl
  exact ⟨hrequests, hlength⟩

end VPlc
