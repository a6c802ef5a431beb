import Mathlib.Data.List.Induction
import VPlc.Proofs.XgtRun

/-!
# Requests of several blocks

An individual write goes through its blocks one by one, and checks and stores
each before it looks at the next. What it has stored when it stops is a list of
writes, and what a list of writes leaves in a cell is the last of them to that
cell (`get_foldl_store`). Both results here come out of that. A write whose
blocks are all in order leaves in every named cell the value of the last block
that names it, which is what a read of the same names then returns. A write that
is stopped leaves behind what the blocks in front of the fault stored, so it has
done nothing only if they change nothing (`xgt_write_atomic_iff`).
-/

namespace VPlc

open Bytes (leBytes le16)

namespace XgtServer

/-! ## Writes in a row -/

/-- What the writes leave in a cell: the value of the last one to it, if any. -/
def lastWrite (ws : List (LsAddress × UInt16)) (a : Area) (i : Nat) : Option UInt16 :=
  (ws.filter fun w => w.1.area = a ∧ w.1.cellIndex = i).getLast?.map Prod.snd

section Store

variable (ws : List (LsAddress × UInt16)) (m : PlcMemory)

theorem size_foldl_store (a : Area) : (ws.foldl store m).size a = m.size a := by
  induction ws generalizing m with
  | nil => rfl
  | cons w ws ih => rw [List.foldl_cons, ih, store, PlcMemory.size_set]

theorem mappings_foldl_store : (ws.foldl store m).mappings = m.mappings := by
  induction ws generalizing m with
  | nil => rfl
  | cons w ws ih => rw [List.foldl_cons, ih, store, PlcMemory.mappings_set]

theorem lastWrite_concat (w : LsAddress × UInt16) (a : Area) (i : Nat) :
    lastWrite (ws ++ [w]) a i =
      if w.1.area = a ∧ w.1.cellIndex = i then some w.2 else lastWrite ws a i := by
  rw [lastWrite, List.filter_append]
  by_cases hcell : w.1.area = a ∧ w.1.cellIndex = i
  · rw [if_pos hcell, List.filter_singleton, decide_eq_true hcell]
    simp
  · rw [if_neg hcell, List.filter_singleton, decide_eq_false hcell]
    simp [lastWrite]

theorem get_foldl_store (a : Area) (i : Nat) :
    (ws.foldl store m).get a i =
      match lastWrite ws a i with
      | none => m.get a i
      | some v => if i < m.size a then a.norm v else m.get a i := by
  -- from the last write backwards: it decides its own cell and no other
  induction ws using List.reverseRecOn with
  | nil => rfl
  | append_singleton ws w ih =>
      rw [List.foldl_append, List.foldl_cons, List.foldl_nil, store, PlcMemory.get_set,
        size_foldl_store]
      by_cases hcell : w.1.area = a ∧ w.1.cellIndex = i
      · rw [lastWrite_concat, if_pos hcell]
        obtain ⟨rfl, rfl⟩ := hcell
        by_cases hin : w.1.cellIndex < m.size w.1.area
        · rw [if_pos ⟨rfl, rfl, hin⟩]
          exact (if_pos hin).symm
        · rw [if_neg (fun h => hin h.2.2), ih]
          dsimp only
          rw [if_neg hin]
          split
          · rfl
          · exact if_neg hin
      · rw [lastWrite_concat, if_neg hcell, if_neg (fun h => hcell ⟨h.1, h.2.1⟩), ih]

/-- Writes change nothing just if every cell already held what they leave in it. -/
theorem foldl_store_eq_iff :
    ws.foldl store m = m ↔
      ∀ a i v, lastWrite ws a i = some v → i < m.size a → m.get a i = a.norm v := by
  constructor
  · intro h a i v hlast hlt
    have hget := get_foldl_store ws m a i
    rw [h, hlast] at hget
    dsimp only at hget
    rwa [if_pos hlt] at hget
  · intro h
    refine PlcMemory.ext_get (size_foldl_store ws m) ?_ (mappings_foldl_store ws m)
    intro a i
    rw [get_foldl_store]
    split
    · rfl
    · next v hlast =>
        split
        · next hlt => exact (h a i v hlast hlt).symm
        · rfl

end Store

/-! ## Blocks in order -/

/-- A name that leads to a cell. -/
structure Variable where
  name : List UInt8
  addr : LsAddress
  fits : name.length < 65536
  resolves : resolveAddress name = some addr
  inRange : addr.cellIndex < if addr.isBit then 2048 else 1024

/-- A variable and the bytes to write to it: one for a bit, two for a word. -/
structure Assignment extends Variable where
  data : List UInt8
  size : data.length = addr.size.toNat

namespace Assignment

variable (x : Assignment)

def block : WriteBlock := ⟨x.name, x.addr.size, x.data⟩

/-- The value the bytes mean, a bit's normalised. -/
def value : UInt16 :=
  if x.addr.isBit then (x.data.getD 0 0 != 0).toUInt16 else le16 x.data 0

/-- The write it asks for. -/
def toWrite : LsAddress × UInt16 := (x.addr, x.value)

theorem block_fits : x.block.Fits where
  name := x.fits
  data := by
    have hquirk : writeDataLen x.addr.size = x.addr.size := by
      refine writeDataLen_of_ne ?_
      rw [LsAddress.size]
      split
      · decide
      · decide
    rw [block, hquirk, x.size]

theorem norm_value : x.addr.area.norm x.value = x.value := by
  rw [LsAddress.area, value]
  split
  · have hbit : ∀ a : Area, a.isBit = true →
        a.norm (x.data.getD 0 0 != 0).toUInt16 = (x.data.getD 0 0 != 0).toUInt16 :=
      fun a ha => Area.norm_bit ha _
    split
    · exact hbit _ rfl
    split
    · exact hbit _ rfl
    · exact hbit _ rfl
  · exact Area.norm_of_word rfl _

theorem lt_size (m : PlcMemory) : x.addr.cellIndex < m.size x.addr.area := by
  have hin := x.inRange
  rw [LsAddress.area]
  split at hin
  · next hbit =>
      rw [if_pos hbit]
      split
      · exact hin
      split
      · exact hin
      · exact hin
  · next hword =>
      rw [if_neg hword]
      exact hin

theorem valueAt_eq {beyond : Nat → UInt8} {request pre tail : List UInt8} {offset : Nat}
    (hR : request = pre ++ (x.data ++ tail)) (hpre : pre.length = offset) :
    valueAt beyond request x.addr offset = x.value := by
  have hbyte : ∀ i, i < x.data.length →
      byteAt beyond request (offset + i) = x.data.getD i 0 := by
    intro i hi
    rw [byteAt, hR, List.getD_append_right _ _ _ _ (by omega), hpre,
      Nat.add_sub_cancel_left, List.getD_append _ _ _ _ hi, List.getD_eq_getElem _ _ hi,
      List.getD_eq_getElem _ _ hi]
  have hsize := x.size
  rw [LsAddress.size] at hsize
  rw [valueAt, value]
  split
  · next hbit =>
      rw [if_pos hbit] at hsize
      have hlen : x.data.length = 1 := hsize
      rw [← hbyte 0 (by omega), Nat.add_zero]
  · next hword =>
      rw [if_neg hword] at hsize
      have hlen : x.data.length = 2 := hsize
      rw [le16, wordAt, ← hbyte 0 (by omega), ← hbyte (0 + 1) (by omega)]
      rfl

theorem lastWrite_mem {as : List Assignment} {a : Area} {i : Nat} {v : UInt16}
    (h : lastWrite (as.map toWrite) a i = some v) :
    ∃ y ∈ as, y.addr.area = a ∧ y.addr.cellIndex = i ∧ y.value = v := by
  rw [lastWrite, Option.map_eq_some_iff] at h
  obtain ⟨w, hlast, rfl⟩ := h
  obtain ⟨hmem, hcell⟩ := List.mem_filter.mp (List.mem_of_getLast? hlast)
  obtain ⟨y, hy, rfl⟩ := List.mem_map.mp hmem
  obtain ⟨harea, hindex⟩ := of_decide_eq_true hcell
  exact ⟨y, hy, harea, hindex, rfl⟩

theorem exists_lastWrite {as : List Assignment} {x : Assignment} (hx : x ∈ as) :
    ∃ v, lastWrite (as.map toWrite) x.addr.area x.addr.cellIndex = some v := by
  have hmem : x.toWrite ∈ (as.map toWrite).filter fun w =>
      w.1.area = x.addr.area ∧ w.1.cellIndex = x.addr.cellIndex :=
    List.mem_filter.mpr ⟨List.mem_map.mpr ⟨x, hx, rfl⟩, decide_eq_true ⟨rfl, rfl⟩⟩
  obtain ⟨w, hw⟩ := Option.isSome_iff_exists.mp
    (List.getLast?_isSome.mpr (List.ne_nil_of_mem hmem))
  exact ⟨w.2, by rw [lastWrite, hw, Option.map_some]⟩

end Assignment

section Blocks

variable {beyond : Nat → UInt8} {request pre tail : List UInt8} {offset : Nat}

theorem parseWrites_assignments {as : List Assignment}
    (hR : request = pre ++ ((as.map Assignment.block).flatMap WriteBlock.bytes ++ tail))
    (hpre : pre.length = offset) :
    parseWrites beyond request as.length offset = (as.map Assignment.toWrite, none) := by
  induction as generalizing pre offset with
  | nil => rfl
  | cons x as ih =>
      rw [List.map_cons, List.flatMap_cons] at hR
      obtain ⟨hR', hpre'⟩ := next_block hR hpre
      rw [List.append_assoc] at hR
      have hdata : request = (pre ++ (nameBytes x.name ++ leBytes x.addr.size)) ++
          (x.data ++ ((as.map Assignment.block).flatMap WriteBlock.bytes ++ tail)) := by
        rw [hR, WriteBlock.bytes]
        simp only [List.append_assoc]
        rfl
      have hprefix : (pre ++ (nameBytes x.name ++ leBytes x.addr.size)).length =
          offset + 2 + x.name.length + 2 := by
        rw [List.length_append, List.length_append, length_nameBytes, Bytes.length_leBytes,
          hpre]
        omega
      have hresolves : resolveAddress x.block.name = some x.addr := x.resolves
      rw [List.length_cons, parseWrites_cons x.block_fits hR hpre, hresolves]
      dsimp only
      rw [ih hR' hpre', show x.block.name.length = x.name.length from rfl,
        x.valueAt_eq hdata hprefix]
      rfl

theorem resolveAll_variables (vs : List Variable) :
    resolveAll (vs.map Variable.name) = (vs.map Variable.addr, none) := by
  induction vs with
  | nil => rfl
  | cons x vs ih =>
      rw [List.map_cons, resolveAll, x.resolves, ih]
      rfl

end Blocks

/-- What an individual request of `n` blocks has in front of them. -/
structure BlockHead (head : List UInt8) (command : UInt16) (n : Nat) : Prop where
  length : head.length = 28
  command : le16 head 20 = command
  dataType : le16 head 22 ≠ 0x0014
  blockCount : (le16 head 26).toNat = n

theorem BlockHead.fields {head : List UInt8} {command : UInt16} {n : Nat}
    (h : BlockHead head command n) (rest : List UInt8) :
    le16 (head ++ rest) 20 = command ∧ le16 (head ++ rest) 22 ≠ 0x0014 ∧
      (le16 (head ++ rest) 26).toNat = n := by
  obtain ⟨hlen, hcommand, hdataType, hcount⟩ := h
  refine ⟨?_, ?_, ?_⟩
  · rwa [Bytes.le16_append_left _ _ (by omega)]
  · rwa [Bytes.le16_append_left _ _ (by omega)]
  · rwa [Bytes.le16_append_left _ _ (by omega)]

def blockWrite (head : List UInt8) (as : List Assignment) (tail : List UInt8) : List UInt8 :=
  head ++ ((as.map Assignment.block).flatMap WriteBlock.bytes ++ tail)

def blockRead (head : List UInt8) (as : List Assignment) (tail : List UInt8) : List UInt8 :=
  head ++ ((as.map fun x => x.name).flatMap nameBytes ++ tail)

section RoundTrip

variable {beyond : Nat → UInt8} {m : PlcMemory} {as : List Assignment}
  {head tail : List UInt8}

theorem execute_blockWrite (hhead : BlockHead head 0x0058 as.length) (hne : as ≠ []) :
    execute beyond (blockWrite head as tail) m =
      ((as.map Assignment.toWrite).foldl store m, [], none) := by
  obtain ⟨hcommand, hdataType, hcount⟩ :=
    hhead.fields ((as.map Assignment.block).flatMap WriteBlock.bytes ++ tail)
  have hlen : 30 ≤ (blockWrite head as tail).length := by
    obtain ⟨x, as, rfl⟩ := List.exists_cons_of_ne_nil hne
    simp only [blockWrite, List.map_cons, List.flatMap_cons, List.length_append,
      WriteBlock.length_bytes, hhead.length]
    omega
  rw [execute_write hlen hcommand hdataType, blockWrite, hcount,
    parseWrites_assignments rfl hhead.length]

theorem execute_blockRead (hhead : BlockHead head 0x0054 as.length) (hne : as ≠ []) :
    execute beyond (blockRead head as tail) m =
      (m, as.flatMap fun x => x.addr.replyBlock (m.get x.addr.area x.addr.cellIndex),
        none) := by
  obtain ⟨hcommand, hdataType, hcount⟩ :=
    hhead.fields ((as.map fun x => x.name).flatMap nameBytes ++ tail)
  have hlen : 30 ≤ (blockRead head as tail).length := by
    obtain ⟨x, as, rfl⟩ := List.exists_cons_of_ne_nil hne
    simp only [blockRead, List.map_cons, List.flatMap_cons, List.length_append,
      length_nameBytes, hhead.length]
    omega
  have hfits : ∀ name ∈ as.map fun x => x.name, name.length < 65536 := by
    intro name hname
    obtain ⟨x, -, rfl⟩ := List.mem_map.mp hname
    exact x.fits
  have hnames : parseNames (blockRead head as tail) as.length 28 =
      (as.map fun x => x.addr, none) := by
    have hparse : parseNames (blockRead head as tail) _ 28 = _ :=
      parseNames_content hfits rfl hhead.length
    rw [List.length_map] at hparse
    have hall := resolveAll_variables (as.map Assignment.toVariable)
    rw [List.map_map, List.map_map] at hall
    exact hparse.trans hall
  rw [execute_read hlen hcommand hdataType, show (le16 (blockRead head as tail) 26).toNat =
    as.length from hcount, hnames, List.flatMap_map]

end RoundTrip

/-- The value of the last assignment to a variable's cell. -/
def lastValue (as : List Assignment) (x : Variable) : UInt16 :=
  (lastWrite (as.map Assignment.toWrite) x.addr.area x.addr.cellIndex).getD 0

/-- An individual write and an individual read of the same names behind it: both
are acknowledged, every named cell and no other takes on the last value given to
it, and block by block these are what comes back. -/
structure BlockRoundTrip (beyond : Nat → UInt8) (m : PlcMemory) (as : List Assignment)
    (write read : List UInt8) : Prop where
  writeStatus : le16 (processRequest beyond m write).2 26 = 0
  named : ∀ x ∈ as, (processRequest beyond m write).1.get x.addr.area x.addr.cellIndex =
    lastValue as x.toVariable
  others : ∀ a i, (∀ x ∈ as, ¬ (x.addr.area = a ∧ x.addr.cellIndex = i)) →
    (processRequest beyond m write).1.get a i = m.get a i
  size : ∀ a, (processRequest beyond m write).1.size a = m.size a
  mappings : (processRequest beyond m write).1.mappings = m.mappings
  readStatus :
    le16 (processRequest beyond (processRequest beyond m write).1 read).2 26 = 0
  blockCount :
    (le16 (processRequest beyond (processRequest beyond m write).1 read).2 28).toNat =
      as.length
  returned :
    (processRequest beyond (processRequest beyond m write).1 read).2.drop 30 =
      as.flatMap fun x => x.addr.replyBlock (lastValue as x.toVariable)

theorem get_foldl_assignments {as : List Assignment} {m : PlcMemory} {x : Assignment}
    (hx : x ∈ as) :
    ((as.map Assignment.toWrite).foldl store m).get x.addr.area x.addr.cellIndex =
      lastValue as x.toVariable := by
  obtain ⟨v, hv⟩ := Assignment.exists_lastWrite hx
  obtain ⟨y, -, harea, -, rfl⟩ := Assignment.lastWrite_mem hv
  rw [get_foldl_store, lastValue, hv]
  dsimp only
  rw [if_pos (x.lt_size m), ← harea, y.norm_value]
  rfl

theorem get_foldl_assignments_of_ne {as : List Assignment} {m : PlcMemory} {a : Area}
    {i : Nat} (h : ∀ x ∈ as, ¬ (x.addr.area = a ∧ x.addr.cellIndex = i)) :
    ((as.map Assignment.toWrite).foldl store m).get a i = m.get a i := by
  rw [get_foldl_store]
  split
  · rfl
  · next v hv =>
      obtain ⟨y, hy, harea, hindex, -⟩ := Assignment.lastWrite_mem hv
      exact absurd ⟨harea, hindex⟩ (h y hy)

/-- Whatever mix of bits and words is written, however often a cell is named:
what is read back is what was written last. -/
theorem xgt_blocks_roundTrip (beyond : Nat → UInt8) (m : PlcMemory) (as : List Assignment)
    (head tail readHead readTail : List UInt8) (hne : as ≠ [])
    (hhead : BlockHead head 0x0058 as.length)
    (hreadHead : BlockHead readHead 0x0054 as.length) :
    BlockRoundTrip beyond m as (blockWrite head as tail) (blockRead readHead as readTail) := by
  have hwrite : execute beyond (blockWrite head as tail) m = _ :=
    execute_blockWrite hhead hne
  obtain ⟨m', hm'⟩ : ∃ m', (as.map Assignment.toWrite).foldl store m = m' := ⟨_, rfl⟩
  have hstate : (processRequest beyond m (blockWrite head as tail)).1 = m' := by
    rw [processRequest, hwrite, hm']
  have hread : execute beyond (blockRead readHead as readTail) m' = _ :=
    execute_blockRead hreadHead hne
  have hlen : 12 ≤ (blockRead readHead as readTail).length := by
    rw [blockRead, List.length_append, hreadHead.length]
    omega
  have hreply : (processRequest beyond m' (blockRead readHead as readTail)).2 =
      respond (blockRead readHead as readTail)
        (as.flatMap fun x => x.addr.replyBlock (m'.get x.addr.area x.addr.cellIndex))
        0x0000 := by
    rw [processRequest, hread]
    rfl
  obtain ⟨-, hdataType, hcount⟩ :=
    hreadHead.fields ((as.map fun x => x.name).flatMap nameBytes ++ readTail)
  refine ⟨?_, ?_, ?_, ?_, ?_, ?_, ?_, ?_⟩
  · rw [status_processRequest, hwrite]
    rfl
  · intro x hx
    rw [hstate, ← hm', get_foldl_assignments hx]
  · intro a i hcell
    rw [hstate, ← hm', get_foldl_assignments_of_ne hcell]
  · intro a
    rw [hstate, ← hm', size_foldl_store]
  · rw [hstate, ← hm', mappings_foldl_store]
  · rw [hstate, status_processRequest, hread]
    rfl
  · rw [hstate, hreply, blockCount_respond hlen _ _ hdataType]
    exact hcount
  · rw [hstate, hreply, drop_respond hlen]
    refine List.flatMap_congr fun x hx => ?_
    rw [← hm', get_foldl_assignments hx]

/-- A head as a client sends it. -/
def blockHead (length command blockCount : UInt8) : List UInt8 :=
  lsisXgt ++ [0, 0, 0, 0, 0, 0x33, 0, 0, length, 0] ++
    [0, 0, command, 0, 2, 0, 0, 0, blockCount, 0]

/-- `%MX3 := 1`, the bit written as `0xFF`. -/
def setMX3 : Assignment where
  name := [0x25, 0x4D, 0x58, 0x33]
  addr := ⟨'M', true, 3, 0⟩
  fits := by decide
  resolves := by decide
  inRange := by decide
  data := [0xFF]
  size := rfl

/-- `%MW10 := low`. -/
def setMW10 (low : UInt8) : Assignment where
  name := nameMW10
  addr := ⟨'M', false, 10, 0⟩
  fits := by decide
  resolves := by decide
  inRange := by decide
  data := [low, 0]
  size := rfl

/-- A word written twice, with a bit between. -/
theorem xgt_blocks_roundTrip_three :
    BlockRoundTrip (fun _ => 0) PlcMemory.default [setMW10 7, setMX3, setMW10 8]
      (blockWrite (blockHead 41 0x58 3) [setMW10 7, setMX3, setMW10 8] [])
      (blockRead (blockHead 30 0x54 3) [setMW10 7, setMX3, setMW10 8] []) :=
  xgt_blocks_roundTrip (fun _ => 0) PlcMemory.default [setMW10 7, setMX3, setMW10 8]
    (blockHead 41 0x58 3) [] (blockHead 30 0x54 3) [] (List.cons_ne_nil _ _)
    ⟨rfl, rfl, by decide, rfl⟩ ⟨rfl, rfl, by decide, rfl⟩

/-! ## A write that is stopped -/

/-- A request that is not reported as done has done nothing. -/
def AllOrNothing (beyond : Nat → UInt8) (m : PlcMemory) (request : List UInt8) : Prop :=
  le16 (processRequest beyond m request).2 26 ≠ 0 → (processRequest beyond m request).1 = m

/-- An individual write is all or nothing unless it stops at a block after one
that gave some cell a new value. -/
theorem xgt_write_atomic_iff (beyond : Nat → UInt8) (m : PlcMemory) (request : List UInt8)
    (hcommand : le16 request 20 = 0x0058) (hdataType : le16 request 22 ≠ 0x0014) :
    AllOrNothing beyond m request ↔
      (parseWrites beyond request (le16 request 26).toNat 28).2 = none ∨
        ∀ a i v,
          lastWrite (parseWrites beyond request (le16 request 26).toNat 28).1 a i = some v →
            i < m.size a → m.get a i = a.norm v := by
  rw [AllOrNothing, status_processRequest, Ne, errorStatus_eq_zero]
  by_cases hlen : 30 ≤ request.length
  · rw [← foldl_store_eq_iff, processRequest, execute_write hlen hcommand hdataType]
    exact Decidable.imp_iff_not_or.trans (or_congr_left not_not)
  · have hshort : execute beyond request m = (m, [], some .request) := by
      rw [execute, if_pos (by omega)]
    refine iff_of_true ?_ ?_
    · intro _
      rw [processRequest, hshort]
    · cases (le16 request 26).toNat with
      | zero => exact Or.inl rfl
      | succ b =>
          rw [parseWrites, if_pos (by omega)]
          exact Or.inr fun a i v h => absurd h (Option.some_ne_none v).symm

/-- `%MW10 := 7` and nothing else. -/
theorem xgt_write_atomic_done :
    AllOrNothing (fun _ => 0) PlcMemory.default
      (blockHead 21 0x58 1 ++ WriteBlock.bytes ⟨nameMW10, 2, [7, 0]⟩) :=
  (xgt_write_atomic_iff (fun _ => 0) PlcMemory.default
    (blockHead 21 0x58 1 ++ WriteBlock.bytes ⟨nameMW10, 2, [7, 0]⟩) rfl (by decide)).mpr
    (Or.inl (by decide))

/-- `%MW10 := 7`, and a second block whose name means nothing. -/
def halfWrite : List UInt8 :=
  blockHead 31 0x58 2 ++ (WriteBlock.bytes ⟨nameMW10, 2, [7, 0]⟩ ++
    WriteBlock.bytes ⟨[0x25, 0x5A, 0x57, 0x31], 2, [8, 0]⟩)

/-- `%MW10 := 7`, and a second block that never comes. -/
def cutWrite : List UInt8 :=
  blockHead 21 0x58 2 ++ WriteBlock.bytes ⟨nameMW10, 2, [7, 0]⟩

theorem not_allOrNothing_of_first {request : List UInt8} (fault : Fault)
    (hlen : 30 ≤ request.length) (hcommand : le16 request 20 = 0x0058)
    (hdataType : le16 request 22 ≠ 0x0014)
    (hparse : parseWrites (fun _ => 0) request (le16 request 26).toNat 28 =
      ([(⟨'M', false, 10, 0⟩, 7)], some fault)) :
    ¬ AllOrNothing (fun _ => 0) PlcMemory.default request := by
  intro h
  rw [AllOrNothing, status_processRequest, Ne, errorStatus_eq_zero, processRequest,
    execute_write hlen hcommand hdataType, hparse] at h
  have hcell := (foldl_store_eq_iff _ _).mp (h (Option.some_ne_none fault)) .lsW 10 7 rfl (show 10 < 1024 by omega)
  rw [PlcMemory.get_default] at hcell
  exact absurd hcell (by decide)

/-- A fault in the second block, and a client that hangs up before it: both are
answered with an error, and both leave the first block stored. -/
theorem xgt_write_not_atomic :
    ¬ AllOrNothing (fun _ => 0) PlcMemory.default halfWrite ∧
      (turn (fun _ => 0) (fun _ => true)
        (Net.Session.start PlcMemory.default [cutWrite])).1.requests = [cutWrite] ∧
      ¬ AllOrNothing (fun _ => 0) PlcMemory.default cutWrite := by
  refine ⟨?_, ?_, ?_⟩
  · exact not_allOrNothing_of_first .address (by decide) rfl (by decide) (by decide)
  · rfl
  · exact not_allOrNothing_of_first .length (by decide) rfl (by decide) (by decide)

end XgtServer

end VPlc
