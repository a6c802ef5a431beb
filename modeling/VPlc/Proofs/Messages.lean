import VPlc.Core.AreaTable
import VPlc.Core.Requests
import VPlc.Mirror.Register
import VPlc.Proofs.McSpec
import VPlc.Proofs.ModbusSpec
import VPlc.Proofs.XgtBlocks

/-!
# What a message says about the cells

Three protocols have three ways to write cells and to ask for them, with bits in
bytes or in nibbles and words of either order. `Carries` is what a write request
says, whichever protocol it is of: some values for some cells. `Asks` is what a
read request asks for, and `told` what its client takes out of the reply. The
memory is then left with the values that were carried (`Carries.view`), and the
client is told those that are there (`Asks.told`).
-/

namespace VPlc

open Bytes (be16 bitAt flagAt leBytes le16)
open PlcMemory (Stored)
open XgtServer (Assignment BlockHead LsAddress RunHead Variable)

/-- Cells next to each other. -/
def cellBlock (a : Area) (start n : Nat) : List Cell := (List.range n).map fun k => ⟨a, start + k⟩

/-- And values for them. -/
def valueBlock (a : Area) (start n : Nat) (v : Nat → UInt16) : List (Cell × UInt16) :=
  (List.range n).map fun k => (⟨a, start + k⟩, v k)

/-- Values for cells, as the mapping engine names them. -/
def named (ws : List (Cell × UInt16)) : List (Option Cell × UInt16) :=
  ws.map fun w => (some w.1, w.2)

theorem PlcMemory.Stored.view {m m' : PlcMemory} {a : Area} {start n : Nat}
    {v : Nat → UInt16} (h : Stored m m' a start n v) :
    m'.view = Mirror.put m.view (named (valueBlock a start n v)) := by
  have hput (n : Nat) (k : Option Cell) :
      Mirror.put m.view (named (valueBlock a start n v)) k =
        k.elim 0 fun c =>
          if c.area = a ∧ start ≤ c.index ∧ c.index < start + n then v (c.index - start)
          else m.get c.area c.index := by
    induction n with
    | zero =>
        cases k with
        | none => rfl
        | some c => exact (if_neg fun hin => by omega).symm
    | succ n ih =>
        rw [Mirror.put, named, valueBlock, List.range_succ, List.map_append, List.map_append,
          List.foldl_append]
        rw [Mirror.put, named, valueBlock] at ih
        simp only [List.map_cons, List.map_nil, List.foldl_cons, List.foldl_nil,
          Function.update_apply, ih]
        cases k with
        | none => rfl
        | some c =>
            obtain ⟨b, i⟩ := c
            simp only [Option.elim_some, Option.some.injEq, Cell.mk.injEq]
            by_cases hlast : b = a ∧ i = start + n
            · obtain ⟨rfl, rfl⟩ := hlast
              rw [if_pos ⟨rfl, rfl⟩, if_pos ⟨rfl, by omega, by omega⟩, Nat.add_sub_cancel_left]
            · rw [if_neg hlast]
              refine if_congr (and_congr_right fun hb => ?_) rfl rfl
              have hi : i ≠ start + n := fun hi => hlast ⟨hb, hi⟩
              omega
  funext k
  rw [hput]
  cases k with
  | none => rfl
  | some c =>
      obtain ⟨b, i⟩ := c
      show m'.get b i = if b = a ∧ start ≤ i ∧ i < start + n then v (i - start) else m.get b i
      split
      · next hin =>
          obtain ⟨rfl, hle, hlt⟩ := hin
          rw [← h.written (i - start) (by omega), Nat.add_sub_cancel' hle]
      · next hout => exact h.others b i hout

/-! ## Writes -/

/-- What writing through a reference stores. -/
def PlcMemory.storesAt (m : PlcMemory) (ref : MemoryRef) (v : UInt16) : List (Cell × UInt16) :=
  (m.cell ref).elim [] fun c => [(c, c.area.norm v)]

theorem PlcMemory.view_storesAt (m : PlcMemory) (ref : MemoryRef) (v : UInt16) :
    (m.writeValue ref v).view = Mirror.put m.view (named (m.storesAt ref v)) := by
  rw [view_writeValue, storesAt]
  cases m.cell ref with
  | none => exact Function.update_eq_self none m.view
  | some c => rfl

namespace Call

/-- The cells a call stores to, and what it puts there. -/
def stores (m : PlcMemory) : Call → List (Cell × UInt16)
  | writeCoil address value => m.storesAt (Area.coil.ref address) value.toUInt16
  | writeDiscreteInput address value => m.storesAt (Area.di.ref address) value.toUInt16
  | writeInputRegister address value => m.storesAt (Area.ir.ref address) value
  | writeHoldingRegister address value => m.storesAt (Area.hr.ref address) value
  | writeCoils start values =>
      if start.toNat + values.length ≤ m.size .coil then
        valueBlock .coil start.toNat values.length fun k => (values.getD k false).toUInt16
      else []
  | writeHoldingRegisters start values =>
      if start.toNat + values.length ≤ m.size .hr then
        valueBlock .hr start.toNat values.length fun k => values.getD k 0
      else []
  | writeS7PE address value => m.storesAt (Area.s7Pe.ref address) value.toUInt16
  | writeS7PA address value => m.storesAt (Area.s7Pa.ref address) value.toUInt16
  | writeS7DB1 address value => m.storesAt (Area.s7Db1.ref address) value
  | writeS7DB2 address value => m.storesAt (Area.s7Db2.ref address) value
  | writeMCBit area address value => m.storesAt ⟨"MC", area, address, true⟩ value.toUInt16
  | writeMCWord area address value => m.storesAt ⟨"MC", area, address, false⟩ value
  | writeLSBit area address value => m.storesAt ⟨"LS", area, address, true⟩ value.toUInt16
  | writeLSWord address value => m.storesAt (Area.lsW.ref address) value
  | _ => []

/-- A call leaves the memory as it was but for what it stores. -/
theorem exec_stores (c : Call) (m : PlcMemory) :
    (c.exec m).1.view = Mirror.put m.view (named (c.stores m)) ∧
      (c.exec m).1.mappings = m.mappings := by
  have hwrite {m' : PlcMemory} (ref : MemoryRef) (v : UInt16) (h : m' = m.writeValue ref v) :
      m'.view = Mirror.put m.view (named (m.storesAt ref v)) ∧ m'.mappings = m.mappings := by
    rw [h]
    exact ⟨m.view_storesAt ref v, m.mappings_writeValue ref v⟩
  have hbool (b : Bool) : decide (b.toUInt16 ≠ 0) = b := PlcMemory.decide_toUInt16_ne b
  cases c with
  | writeCoils start values =>
      rw [stores]
      split
      · next hin =>
          have hstored := m.writeCoils_stored start hin
          exact ⟨hstored.view, hstored.mappings⟩
      · next hout =>
          have hsame : m.writeCoils start values = m := if_neg hout
          rw [exec, hsame]
          exact ⟨rfl, rfl⟩
  | writeHoldingRegisters start values =>
      rw [stores]
      split
      · next hin =>
          have hstored := m.writeHoldingRegisters_stored start hin
          exact ⟨hstored.view, hstored.mappings⟩
      · next hout =>
          have hsame : m.writeHoldingRegisters start values = m := if_neg hout
          rw [exec, hsame]
          exact ⟨rfl, rfl⟩
  | writeCoil address value =>
      exact hwrite _ _ (congrArg (m.writeCoil address) (hbool value).symm)
  | writeDiscreteInput address value =>
      exact hwrite _ _ (congrArg (m.writeDiscreteInput address) (hbool value).symm)
  | writeS7PE address value =>
      exact hwrite _ _ (congrArg (m.writeS7PE address) (hbool value).symm)
  | writeS7PA address value =>
      exact hwrite _ _ (congrArg (m.writeS7PA address) (hbool value).symm)
  | writeMCBit area address value =>
      exact hwrite _ _ (congrArg (m.writeMCBit area address) (hbool value).symm)
  | writeLSBit area address value =>
      exact hwrite _ _ (congrArg (m.writeLSBit area address) (hbool value).symm)
  | writeInputRegister address value => exact hwrite (Area.ir.ref address) value rfl
  | writeHoldingRegister address value => exact hwrite (Area.hr.ref address) value rfl
  | writeS7DB1 address value => exact hwrite (Area.s7Db1.ref address) value rfl
  | writeS7DB2 address value => exact hwrite (Area.s7Db2.ref address) value rfl
  | writeMCWord area address value =>
      exact hwrite ⟨"MC", area, address, false⟩ value rfl
  | writeLSWord address value => exact hwrite (Area.lsW.ref address) value rfl
  | _ => exact ⟨rfl, rfl⟩

end Call

/-- What a request stores, call by call. A point past the end of its area and a
block behind a fault are not among it. -/
def Work.stores (beyond : Nat → UInt8) (m : PlcMemory) (w : Work) : List (Cell × UInt16) :=
  Threads.trail Call.exec (fun c m => c.stores m) (w.serve beyond) m

/-- Whatever a request is, it leaves the memory as it was but for what it stores. -/
theorem Work.process_stores (beyond : Nat → UInt8) (m : PlcMemory) (w : Work) :
    (w.process beyond m).1.view = Mirror.put m.view (named (w.stores beyond m)) ∧
      (∀ a, (w.process beyond m).1.size a = m.size a) ∧
      (w.process beyond m).1.mappings = m.mappings := by
  have hwhole : Threads.alone Call.exec (w.serve beyond) m = w.process beyond m :=
    congrFun (congrFun (whole_serve beyond) w) m
  rw [← hwhole]
  refine ⟨?_, fun a => ?_, ?_⟩
  · have hview := Threads.view_alone Call.exec (fun c m => c.stores m) (V := PlcMemory.view)
      (f := fun s w => Function.update s (some w.1) w.2)
      (fun c m => by rw [(c.exec_stores m).1, Mirror.put, named, List.foldl_map])
      (w.serve beyond) m
    rw [hview, Mirror.put, named, List.foldl_map]
    rfl
  · exact Threads.alone_inv Call.exec (I := fun m' => m'.size a = m.size a)
      (fun c m' h => (c.size_exec m' a).trans h) (w.serve beyond) rfl
  · exact Threads.alone_inv Call.exec (I := fun m' => m'.mappings = m.mappings)
      (fun c m' h => (c.exec_stores m').2.trans h) (w.serve beyond) rfl

/-! ## Reads -/

namespace XgtServer

/-- The values in the blocks of a reply, by the size in front of each. -/
def blockValues : Nat → List UInt8 → List UInt16
  | 0, _ => []
  | b + 1, data =>
      let size := (le16 data 0).toNat
      (if size = 1 then (data.getD 2 0).toUInt16 else le16 data 2) ::
        blockValues b (data.drop (2 + size))

/-- An individual read of these variables. -/
def variablesRead (head : List UInt8) (vs : List Variable) (tail : List UInt8) : List UInt8 :=
  head ++ ((vs.map Variable.name).flatMap nameBytes ++ tail)

end XgtServer

/-- What a client takes out of the reply to its read. -/
def Work.told : (w : Work) → w.Ret → List UInt16
  | .modbus pdu, reply =>
      (List.range (be16 pdu 3).toNat).map fun k =>
        if pdu.getD 0 0 = 0x01 ∨ pdu.getD 0 0 = 0x02 then (bitAt (reply.drop 2) k).toUInt16
        else be16 (reply.drop 2) (2 * k)
  | .mc request, reply =>
      (List.range (McServer.points request)).map fun k =>
        if le16 request 13 = 0x0000 then le16 (reply.drop 11) (2 * k)
        else (flagAt (reply.drop 11) k).toUInt16
  | .xgt request, reply =>
      if le16 request 22 = 0x0014 then
        (List.range ((le16 reply 30).toNat / 2)).map fun k => le16 (reply.drop 32) (2 * k)
      else XgtServer.blockValues (le16 reply 28).toNat (reply.drop 30)
  | .call _, _ => []

/-- The request asks for these cells, and they are there. -/
inductive Work.Asks (m : PlcMemory) : Work → List Cell → Prop
  | modbus {pdu : List UInt8} {a : Area} :
      5 ≤ pdu.length → ModbusServer.readArea? (pdu.getD 0 0) = some a →
      ModbusServer.Admitted (be16 pdu 1) (be16 pdu 3) (ModbusServer.readLimit a) (m.size a) →
      Asks m (.modbus pdu) (cellBlock a (be16 pdu 1).toNat (be16 pdu 3).toNat)
  | mc {request : List UInt8} {a : Area} :
      21 ≤ request.length → le16 request 11 = 0x0401 →
      McServer.device? request = some a →
      McServer.head request + McServer.points request ≤ m.size a →
      Asks m (.mc request) (cellBlock a (McServer.head request) (McServer.points request))
  | xgtRun {head name tail : List UInt8} {n : Nat} {addr : LsAddress} :
      RunHead head 0x0054 → name.length < 65536 →
      XgtServer.resolveAddress name = some addr → addr.index.toNat + n ≤ 1024 →
      Asks m (.xgt (XgtServer.runRead head name n tail)) (cellBlock .lsW addr.index.toNat n)
  | xgtBlocks {head tail : List UInt8} {vs : List Variable} :
      BlockHead head 0x0054 vs.length → vs ≠ [] →
      Asks m (.xgt (XgtServer.variablesRead head vs tail))
        (vs.map fun x => ⟨x.addr.area, x.addr.cellIndex⟩)

theorem map_cellBlock (m : PlcMemory) (a : Area) (start n : Nat) :
    ((cellBlock a start n).map fun c => m.get c.area c.index) =
      (List.range n).map fun k => m.get a (start + k) := by
  rw [cellBlock, List.map_map]
  rfl

theorem le16_range_flatMap (v : Nat → UInt16) {n k : Nat} (hk : k < n) :
    le16 ((List.range n).flatMap fun i => leBytes (v i)) (2 * k) = v k := by
  have hlen : k < ((List.range n).map v).length := by
    rwa [List.length_map, List.length_range]
  have hword := Bytes.le16_flatMap hlen []
  rw [List.append_nil, List.flatMap_map, List.getD_eq_getElem _ _ hlen, List.getElem_map,
    List.getElem_range] at hword
  exact hword

theorem PlcMemory.toUInt16_get (m : PlcMemory) {a : Area} (ha : a.isBit = true) (i : Nat) :
    (decide (m.get a i ≠ 0)).toUInt16 = m.get a i := by
  rw [← Area.norm_of_bit ha, m.norm_get]

namespace ModbusServer

theorem told_of_decodes {pdu reply : List UInt8} {a : Area} {v : Nat → UInt16}
    (ha : readArea? (pdu.getD 0 0) = some a)
    (h : Decodes (pdu.getD 0 0) a (be16 pdu 3).toNat v reply) :
    (Work.modbus pdu).told reply = (List.range (be16 pdu 3).toNat).map v := by
  have hbit : a.isBit = true ↔ pdu.getD 0 0 = 0x01 ∨ pdu.getD 0 0 = 0x02 := by
    unfold readArea? at ha
    split at ha
    · next hfc => cases ha; exact iff_of_true rfl (.inl hfc)
    split at ha
    · next hfc => cases ha; exact iff_of_true rfl (.inr hfc)
    · next h1 h2 =>
        refine iff_of_false ?_ (not_or.mpr ⟨h1, h2⟩)
        split at ha
        · cases ha; exact Bool.false_ne_true
        split at ha
        · cases ha; exact Bool.false_ne_true
        · cases ha
  obtain ⟨data, rfl, -, hdata⟩ := h
  refine List.map_congr_left fun k hk => ?_
  have hk := List.mem_range.mp hk
  split at hdata
  · next hisBit =>
      rw [if_pos (hbit.mp hisBit)]
      exact hdata.2.1 k hk
  · next hisBit =>
      rw [if_neg fun hfc => hisBit (hbit.mpr hfc)]
      exact hdata.2 k hk

end ModbusServer

namespace McServer

theorem told_respond {m : PlcMemory} {request : List UInt8} {a : Area}
    (ha : device? request = some a) (hin : head request + points request ≤ m.size a) :
    (Work.mc request).told
        (respond request (leBytes 0x0000 ++ readData m a (head request) (points request))) =
      (List.range (points request)).map fun k => m.get a (head request + k) := by
  have hdata : (respond request (leBytes 0x0000 ++
      readData m a (head request) (points request))).drop 11 =
        readData m a (head request) (points request) := rfl
  have hsize := size_device (m := m) ha
  refine List.map_congr_left fun k hk => ?_
  have hk := List.mem_range.mp hk
  have hmod : (head request + k) % 65536 = head request + k := Nat.mod_eq_of_lt (by omega)
  rw [hdata, readData]
  unfold device? at ha
  split at ha
  · next hsub =>
      rw [if_pos hsub, (namesWords ha).isBit, if_neg Bool.false_ne_true]
      rw [le16_range_flatMap (fun i => m.get a ((head request + i) % 65536)) hk, hmod]
  split at ha
  · next hsub _ =>
      have hbit := (namesBits ha).isBit
      rw [if_neg hsub, if_pos hbit, Bytes.flagAt_packFlags _ _ hk, hmod, m.toUInt16_get hbit]
  · cases ha

end McServer

namespace XgtServer

/-- The variable as one to be written, with zeros. -/
def Variable.zeroed (x : Variable) : Assignment where
  toVariable := x
  data := if x.addr.isBit then [0] else [0, 0]
  size := by
    rw [LsAddress.size]
    split <;> rfl

theorem variablesRead_eq (head : List UInt8) (vs : List Variable) (tail : List UInt8) :
    variablesRead head vs tail = blockRead head (vs.map Variable.zeroed) tail := by
  rw [variablesRead, blockRead, List.map_map]
  rfl

theorem isBit_area (addr : LsAddress) : addr.area.isBit = addr.isBit := by
  rw [LsAddress.area]
  split
  · next hbit =>
      rw [hbit]
      split
      · rfl
      · split <;> rfl
  · next hword => exact (Bool.eq_false_of_not_eq_true hword).symm

/-- The blocks of a reply give back what was read. -/
theorem blockValues_replyBlocks (m : PlcMemory) (addrs : List LsAddress) (tail : List UInt8) :
    blockValues addrs.length ((addrs.flatMap fun addr =>
        addr.replyBlock (m.get addr.area addr.cellIndex)) ++ tail) =
      addrs.map fun addr => m.get addr.area addr.cellIndex := by
  induction addrs with
  | nil => rfl
  | cons addr addrs ih =>
      obtain ⟨v, hv⟩ : ∃ v, m.get addr.area addr.cellIndex = v := ⟨_, rfl⟩
      rw [List.flatMap_cons, List.length_cons, List.map_cons, hv, List.append_assoc, blockValues]
      have hsize (data : List UInt8) : le16 (addr.replyBlock v ++ data) 0 = addr.size := by
        rw [LsAddress.replyBlock, List.append_assoc]
        exact Bytes.le16_leBytes _ _
      rw [hsize, LsAddress.replyBlock, LsAddress.size]
      cases hbit : addr.isBit with
      | true =>
          have hone : (Bytes.low v).toUInt16 = v := by
            have hval := m.toUInt16_get ((isBit_area addr).trans hbit) addr.cellIndex
            rw [hv] at hval
            rw [← hval]
            cases decide (v ≠ 0) <;> rfl
          exact congrArg₂ List.cons hone ih
      | false =>
          exact congrArg₂ List.cons (Bytes.le16_leBytes (addrs.flatMap (fun addr =>
            addr.replyBlock (m.get addr.area addr.cellIndex)) ++ tail) v) ih

section Told

variable {request : List UInt8} (hlen : 12 ≤ request.length)
include hlen

theorem told_run (hdataType : le16 request 22 = 0x0014) {n : Nat} (hn : n ≤ 1024)
    (v : Nat → UInt16) :
    (Work.xgt request).told (respond request
        (byteCount n ++ (List.range n).flatMap fun i => leBytes (v i)) 0x0000) =
      (List.range n).map v := by
  obtain ⟨data, hdata⟩ : ∃ data, ((List.range n).flatMap fun i => leBytes (v i)) = data :=
    ⟨_, rfl⟩
  have hdrop := drop_respond hlen (byteCount n ++ data) 0x0000
  obtain ⟨reply, hreply⟩ : ∃ reply, respond request (byteCount n ++ data) 0x0000 = reply :=
    ⟨_, rfl⟩
  rw [hreply] at hdrop
  have hcount : (le16 reply 30).toNat / 2 = n := by
    rw [← Nat.add_zero 30, ← Bytes.le16_drop, hdrop, byteCount, Bytes.le16_leBytes,
      UInt16.toNat_ofNat_of_lt' (by show _ < 65536; omega), Nat.mul_div_cancel_left _ (by omega)]
  have hwords : reply.drop 32 = data := by
    rw [show 32 = 30 + 2 from rfl, ← List.drop_drop, hdrop]
    rfl
  rw [hdata, hreply, Work.told, if_pos hdataType, hcount]
  refine List.map_congr_left fun k hk => ?_
  rw [hwords, ← hdata]
  exact le16_range_flatMap v (List.mem_range.mp hk)

theorem told_blocks (hdataType : le16 request 22 ≠ 0x0014) (m : PlcMemory)
    {addrs : List LsAddress} (hcount : (le16 request 26).toNat = addrs.length) :
    (Work.xgt request).told (respond request
        (addrs.flatMap fun addr => addr.replyBlock (m.get addr.area addr.cellIndex)) 0x0000) =
      addrs.map fun addr => m.get addr.area addr.cellIndex := by
  rw [Work.told, if_neg hdataType, blockCount_respond hlen _ _ hdataType, drop_respond hlen,
    hcount]
  have hblocks := blockValues_replyBlocks m addrs []
  rwa [List.append_nil] at hblocks

end Told

end XgtServer

/-- A read changes nothing, and its client is told what is there. -/
theorem Work.Asks.told {m : PlcMemory} {w : Work} {cs : List Cell} (h : w.Asks m cs)
    (beyond : Nat → UInt8) :
    (w.process beyond m).1 = m ∧
      w.told (w.process beyond m).2 = cs.map fun c => m.get c.area c.index := by
  cases h with
  | @modbus pdu a hlen ha hadm =>
      obtain ⟨hmem, hreply⟩ := ModbusServer.processRequest_read (m := m) hlen ha
      rw [if_pos hadm] at hreply
      rw [map_cellBlock]
      exact ⟨hmem, ModbusServer.told_of_decodes ha hreply⟩
  | @mc request a hlen hcommand ha hin =>
      rw [map_cellBlock, Work.process, McServer.processRequest_read hlen hcommand ha]
      exact ⟨rfl, McServer.told_respond ha hin⟩
  | @xgtRun head name tail n addr hhead hname haddr hrange =>
      have hfields : XgtServer.RunFields (XgtServer.runRead head name n tail) 0x0054 _ name _ :=
        XgtServer.run_fields hhead hname
      have hlen : 12 ≤ (XgtServer.runRead head name n tail).length := by
        rw [hfields.length]
        omega
      rw [map_cellBlock, Work.process, XgtServer.processRequest,
        XgtServer.runRead_returns beyond m n tail hhead hname haddr hrange]
      exact ⟨rfl, XgtServer.told_run hlen hfields.dataType (by omega) _⟩
  | @xgtBlocks head tail vs hhead hne =>
      have hhead' : BlockHead head 0x0054 (vs.map Variable.zeroed).length := by
        rwa [List.length_map]
      have hexecute : XgtServer.execute beyond
          (XgtServer.blockRead head (vs.map Variable.zeroed) tail) m = _ :=
        XgtServer.execute_blockRead hhead' fun hnil => hne (List.map_eq_nil_iff.mp hnil)
      rw [← XgtServer.variablesRead_eq, List.flatMap_map] at hexecute
      obtain ⟨-, hdataType, hcount⟩ :=
        hhead.fields ((vs.map Variable.name).flatMap XgtServer.nameBytes ++ tail)
      have hlen : 12 ≤ (XgtServer.variablesRead head vs tail).length := by
        rw [XgtServer.variablesRead, List.length_append, hhead.length]
        omega
      have hcount : (le16 (XgtServer.variablesRead head vs tail) 26).toNat =
          (vs.map fun x => x.addr).length := hcount.trans (List.length_map _).symm
      have htold := XgtServer.told_blocks hlen hdataType m hcount
      rw [List.flatMap_map, List.map_map] at htold
      rw [Work.process, XgtServer.processRequest, hexecute, List.map_map]
      exact ⟨rfl, htold⟩

end VPlc
