import VPlc.Core.Block
import VPlc.Xgt.Wire

/-!
# What an XGT request says

The loops of an individual request read and act at once. Taken apart, each first
makes a list of what the request names, as far as it can be understood, and then
goes through the list (`readBlocks_eq`, `writeBlocks_eq`): what is named does
not depend on the memory. On a well-formed body the list is the body's own
(`parseNames_content`, `parseWrites_fault`), and the only thing left that can
stop it is a name (`resolveAll_fault`). A continuous request has no loop before
its one name is resolved, and what it does can be said at once
(`execute_runRead`, `execute_runWrite`).
-/

namespace VPlc

open Bytes (leBytes le16 word)

namespace XgtServer

/-! ## Addresses as cells -/

namespace LsAddress

variable (addr : LsAddress)

/-- An address `resolveAddress` can return. -/
def Valid : Prop := addr.areaChar = 'I' ∨ addr.areaChar = 'Q' ∨ addr.areaChar = 'M'

/-- The area it is in. All words share one. -/
def area : Area :=
  if addr.isBit then
    if addr.areaChar = 'I' then .lsI else if addr.areaChar = 'Q' then .lsQ else .lsM
  else .lsW

def cellIndex : Nat := if addr.isBit then addr.flatIdx.toNat else addr.index.toNat

def size : UInt16 := if addr.isBit then 1 else 2

/-- The block of a read reply that returns `v`. -/
def replyBlock (v : UInt16) : List UInt8 :=
  leBytes addr.size ++ if addr.isBit then [Bytes.low v] else leBytes v

end LsAddress

theorem resolveBit_areaChar {c : Char} {cs : List Char} {addr : LsAddress}
    (h : resolveBit c cs = some addr) : addr.areaChar = c := by
  unfold resolveBit at h
  split at h <;> first | cases h; rfl | cases h

theorem resolveWord_areaChar {c type : Char} {cs : List Char} {addr : LsAddress}
    (h : resolveWord c type cs = some addr) : addr.areaChar = c := by
  unfold resolveWord at h
  split at h
  · cases h
  · cases h
    rfl

theorem resolveAddress_valid {name : List UInt8} {addr : LsAddress}
    (h : resolveAddress name = some addr) : addr.Valid := by
  simp only [resolveAddress] at h
  obtain ⟨start, hstart⟩ :
      ∃ start, (if (chars name).getD 0 ' ' = '%' then 1 else 0) = start := ⟨_, rfl⟩
  rw [hstart] at h
  obtain ⟨area, harea⟩ : ∃ area, (chars name).getD start ' ' = area := ⟨_, rfl⟩
  rw [harea] at h
  split at h
  · cases h
  split at h
  · cases h
  split at h
  · cases h
  next hchar =>
      have haddr : addr.areaChar = area := by
        split at h
        · exact resolveBit_areaChar h
        split at h
        · exact resolveWord_areaChar h
        · cases h
      rw [LsAddress.Valid, haddr]
      exact not_not.mp hchar

section Cells

variable {beyond : Nat → UInt8} {request : List UInt8} {m : PlcMemory} {addr : LsAddress}

/-- The value a write block gives to its cell. -/
def valueAt (beyond : Nat → UInt8) (request : List UInt8) (addr : LsAddress)
    (offset : Nat) : UInt16 :=
  if addr.isBit then (byteAt beyond request offset != 0).toUInt16
  else wordAt beyond request offset

theorem writeLSBit_eq (i : UInt16) (b : Bool) :
    m.writeLSBit "I" i b = m.set .lsI i.toNat b.toUInt16 ∧
      m.writeLSBit "Q" i b = m.set .lsQ i.toNat b.toUInt16 ∧
      m.writeLSBit "M" i b = m.set .lsM i.toNat b.toUInt16 := by
  simp only [PlcMemory.set, PlcMemory.decide_toUInt16_ne]
  exact ⟨rfl, rfl, rfl⟩

theorem storeBlock_eq (h : addr.Valid) (offset : Nat) :
    storeBlock beyond request m addr offset =
      m.set addr.area addr.cellIndex (valueAt beyond request addr offset) := by
  obtain ⟨c, isBit, index, subIndex⟩ := addr
  cases isBit with
  | false => rfl
  | true =>
      simp only [LsAddress.Valid] at h
      rcases h with rfl | rfl | rfl
      · exact (writeLSBit_eq _ _).1
      · exact (writeLSBit_eq _ _).2.1
      · exact (writeLSBit_eq _ _).2.2

theorem blockData_eq (h : addr.Valid) :
    blockData m addr = addr.replyBlock (m.get addr.area addr.cellIndex) := by
  have hbit : ∀ b : Bool, [if b then (0x01 : UInt8) else 0x00] = [Bytes.low b.toUInt16] := by
    decide
  obtain ⟨c, isBit, index, subIndex⟩ := addr
  cases isBit with
  | false => rfl
  | true =>
      simp only [LsAddress.Valid] at h
      rcases h with rfl | rfl | rfl
      · exact congrArg (leBytes 1 ++ ·) (hbit _)
      · exact congrArg (leBytes 1 ++ ·) (hbit _)
      · exact congrArg (leBytes 1 ++ ·) (hbit _)

end Cells

/-! ## Reading the request before acting on it -/

/-- The addresses an individual read names, up to the first block at fault. -/
def parseNames (request : List UInt8) : Nat → Nat → List LsAddress × Option Fault
  | 0, _ => ([], none)
  | b + 1, offset =>
      if request.length < offset + 2 then ([], some .length)
      else
        let varLen := (le16 request offset).toNat
        let offset := offset + 2
        if request.length < offset + varLen then ([], some .length)
        else
          match resolveAddress ((request.drop offset).take varLen) with
          | none => ([], some .address)
          | some addr =>
              let r := parseNames request b (offset + varLen)
              (addr :: r.1, r.2)

/-- The writes an individual write asks for, up to the first block at fault. -/
def parseWrites (beyond : Nat → UInt8) (request : List UInt8) :
    Nat → Nat → List (LsAddress × UInt16) × Option Fault
  | 0, _ => ([], none)
  | b + 1, offset =>
      if request.length < offset + 2 then ([], some .length)
      else
        let varLen := (le16 request offset).toNat
        let offset := offset + 2
        if request.length < offset + varLen then ([], some .length)
        else
          match resolveAddress ((request.drop offset).take varLen) with
          | none => ([], some .address)
          | some addr =>
              let offset := offset + varLen
              if request.length < offset + 2 then ([], some .length)
              else
                let dataLen := (writeDataLen (le16 request offset)).toNat
                let offset := offset + 2
                if request.length < offset + dataLen then ([], some .length)
                else
                  let r := parseWrites beyond request b (offset + dataLen)
                  ((addr, valueAt beyond request addr offset) :: r.1, r.2)

/-- The names of a body, resolved up to the first that means nothing. -/
def resolveAll : List (List UInt8) → List LsAddress × Option Fault
  | [] => ([], none)
  | name :: names =>
      match resolveAddress name with
      | none => ([], some .address)
      | some addr => (addr :: (resolveAll names).1, (resolveAll names).2)

def store (m : PlcMemory) (w : LsAddress × UInt16) : PlcMemory :=
  m.set w.1.area w.1.cellIndex w.2

section Parse

variable (beyond : Nat → UInt8) (request : List UInt8)

theorem readBlocks_eq (m : PlcMemory) (b offset : Nat) (respData : List UInt8) :
    readBlocks request m b offset respData =
      (respData ++ (parseNames request b offset).1.flatMap fun addr =>
          addr.replyBlock (m.get addr.area addr.cellIndex),
        (parseNames request b offset).2) := by
  induction b generalizing offset respData with
  | zero => simp [readBlocks, parseNames]
  | succ b ih =>
      simp only [readBlocks, parseNames]
      split
      · simp
      split
      · simp
      cases haddr : resolveAddress
          ((request.drop (offset + 2)).take (le16 request offset).toNat) with
      | none => simp
      | some addr =>
          simp only [ih, List.flatMap_cons, blockData_eq (resolveAddress_valid haddr),
            List.append_assoc]

theorem writeBlocks_eq (b offset : Nat) (m : PlcMemory) :
    writeBlocks beyond request b offset m =
      ((parseWrites beyond request b offset).1.foldl store m,
        (parseWrites beyond request b offset).2) := by
  induction b generalizing offset m with
  | zero => rfl
  | succ b ih =>
      simp only [writeBlocks, parseWrites]
      split
      · rfl
      split
      · rfl
      cases haddr : resolveAddress
          ((request.drop (offset + 2)).take (le16 request offset).toNat) with
      | none => rfl
      | some addr =>
          dsimp only
          split
          · rfl
          split
          · rfl
          rw [ih, storeBlock_eq (resolveAddress_valid haddr)]
          rfl

variable {beyond request} {m : PlcMemory}

/-! What is done with a request is decided by its data type and its command. -/

theorem execute_unnamed (hlen : 30 ≤ request.length) (hdataType : le16 request 22 = 0x0014)
    (hname : request.length < 30 + (le16 request 28).toNat) :
    execute beyond request m = (m, [], some .name) := by
  rw [execute, if_neg (by omega)]
  dsimp only
  rw [if_pos hdataType, if_pos hname]

theorem execute_run (hlen : 30 ≤ request.length) (hdataType : le16 request 22 = 0x0014)
    {varLen : Nat} (hvarLen : (le16 request 28).toNat = varLen)
    (hname : 30 + varLen ≤ request.length) :
    execute beyond request m =
      if le16 request 20 = 0x0054 then
        (m, readRun request m varLen (resolveAddress ((request.drop 30).take varLen)))
      else if le16 request 20 = 0x0058 then
        ((writeRun request m varLen (resolveAddress ((request.drop 30).take varLen))).1, [],
          (writeRun request m varLen (resolveAddress ((request.drop 30).take varLen))).2)
      else (m, [], some .command) := by
  subst hvarLen
  rw [execute, if_neg (by omega)]
  dsimp only
  rw [if_pos hdataType, if_neg (by omega)]

theorem execute_blocks (hlen : 30 ≤ request.length) (hdataType : le16 request 22 ≠ 0x0014) :
    execute beyond request m =
      if le16 request 20 = 0x0054 then
        (m, readBlocks request m (le16 request 26).toNat 28 [])
      else if le16 request 20 = 0x0058 then
        ((writeBlocks beyond request (le16 request 26).toNat 28 m).1, [],
          (writeBlocks beyond request (le16 request 26).toNat 28 m).2)
      else (m, [], some .command) := by
  rw [execute, if_neg (by omega)]
  dsimp only
  rw [if_neg hdataType]

theorem execute_read (hlen : 30 ≤ request.length) (hcommand : le16 request 20 = 0x0054)
    (hdataType : le16 request 22 ≠ 0x0014) :
    execute beyond request m =
      (m, (parseNames request (le16 request 26).toNat 28).1.flatMap fun addr =>
          addr.replyBlock (m.get addr.area addr.cellIndex),
        (parseNames request (le16 request 26).toNat 28).2) := by
  rw [execute_blocks hlen hdataType, if_pos hcommand, readBlocks_eq, List.nil_append]

theorem execute_write (hlen : 30 ≤ request.length) (hcommand : le16 request 20 = 0x0058)
    (hdataType : le16 request 22 ≠ 0x0014) :
    execute beyond request m =
      ((parseWrites beyond request (le16 request 26).toNat 28).1.foldl store m, [],
        (parseWrites beyond request (le16 request 26).toNat 28).2) := by
  rw [execute_blocks hlen hdataType, hcommand, if_neg (by decide), if_pos rfl, writeBlocks_eq]

/-! A request whose fixed fields and whose name, if it has just one, are there is
answered under its own header. -/

theorem parseNames_late (b offset : Nat) :
    (parseNames request b offset).2 ∉ [some .request, some .name] := by
  induction b generalizing offset with
  | zero => simp [parseNames]
  | succ b ih =>
      simp only [parseNames]
      split
      · decide
      split
      · decide
      split
      · decide
      · exact ih _

theorem parseWrites_late (b offset : Nat) :
    (parseWrites beyond request b offset).2 ∉ [some .request, some .name] := by
  induction b generalizing offset with
  | zero => simp [parseWrites]
  | succ b ih =>
      simp only [parseWrites]
      split
      · decide
      split
      · decide
      split
      · decide
      split
      · decide
      split
      · decide
      · exact ih _

theorem readRun_late (varLen : Nat) (addr? : Option LsAddress) :
    (readRun request m varLen addr?).2 ∉ [some .request, some .name] := by
  unfold readRun
  split
  · decide
  split
  · decide
  · simp

theorem writeRun_late (varLen : Nat) (addr? : Option LsAddress) :
    (writeRun request m varLen addr?).2 ∉ [some .request, some .name] := by
  unfold writeRun
  split
  · simp
  dsimp only
  split
  · simp
  split
  · simp
  · simp

theorem execute_late (hlen : 30 ≤ request.length)
    (hname : le16 request 22 = 0x0014 → 30 + (le16 request 28).toNat ≤ request.length) :
    (execute beyond request m).2.2 ∉ [some .request, some .name] := by
  by_cases hdataType : le16 request 22 = 0x0014
  · rw [execute_run hlen hdataType rfl (hname hdataType)]
    split
    · exact readRun_late _ _
    split
    · exact writeRun_late _ _
    · simp
  · rw [execute_blocks hlen hdataType]
    split
    · rw [readBlocks_eq]
      exact parseNames_late _ _
    split
    · rw [writeBlocks_eq]
      exact parseWrites_late _ _
    · simp

end Parse

/-! ## Well-formed bodies -/

section Wire

variable {beyond : Nat → UInt8} {request pre tail : List UInt8} {offset : Nat}

theorem field_at {name : List UInt8} (hname : name.length < 65536)
    (hR : request = pre ++ (nameBytes name ++ tail)) (hpre : pre.length = offset) :
    (le16 request offset).toNat = name.length ∧
      (request.drop (offset + 2)).take name.length = name ∧
      offset + 2 + name.length ≤ request.length := by
  refine ⟨?_, ?_, ?_⟩
  · rw [hR, nameBytes]
    simp only [List.append_assoc]
    rw [Bytes.le16_at _ _ _ hpre, toNat_length_field hname]
  · have hsplit : request = (pre ++ leBytes (UInt16.ofNat name.length)) ++ (name ++ tail) := by
      rw [hR, nameBytes]
      simp only [List.append_assoc]
    have hlen : (pre ++ leBytes (UInt16.ofNat name.length)).length = offset + 2 := by
      rw [List.length_append, hpre, Bytes.length_leBytes]
    rw [hsplit, ← hlen, List.drop_left, List.take_left]
  · simp only [hR, List.length_append, length_nameBytes, hpre]
    omega

theorem parseNames_cons {name : List UInt8} (hname : name.length < 65536)
    (hR : request = pre ++ (nameBytes name ++ tail)) (hpre : pre.length = offset)
    (b : Nat) :
    parseNames request (b + 1) offset =
      match resolveAddress name with
      | none => ([], some .address)
      | some addr =>
          (addr :: (parseNames request b (offset + 2 + name.length)).1,
            (parseNames request b (offset + 2 + name.length)).2) := by
  obtain ⟨hlen, htake, hle⟩ := field_at hname hR hpre
  simp only [parseNames, hlen, htake]
  rw [if_neg (by omega), if_neg (by omega)]

theorem parseWrites_cons {w : WriteBlock} (hw : w.Fits)
    (hR : request = pre ++ (w.bytes ++ tail)) (hpre : pre.length = offset) (b : Nat) :
    parseWrites beyond request (b + 1) offset =
      match resolveAddress w.name with
      | none => ([], some .address)
      | some addr =>
          let offset' := offset + 2 + w.name.length + 2
          ((addr, valueAt beyond request addr offset') ::
            (parseWrites beyond request b (offset' + w.data.length)).1,
            (parseWrites beyond request b (offset' + w.data.length)).2) := by
  have hR' : request = pre ++ (nameBytes w.name ++ ((leBytes w.len ++ w.data) ++ tail)) := by
    rw [hR, WriteBlock.bytes]
    simp only [List.append_assoc]
  obtain ⟨hlen, htake, hle⟩ := field_at hw.name hR' hpre
  have hnext : (pre ++ nameBytes w.name).length = offset + 2 + w.name.length := by
    rw [List.length_append, length_nameBytes, hpre]
    omega
  have hdataLen : le16 request (offset + 2 + w.name.length) = w.len := by
    rw [hR', ← List.append_assoc, List.append_assoc (leBytes w.len)]
    exact Bytes.le16_at _ _ _ hnext
  have hsize : offset + (2 + w.name.length + (2 + w.data.length)) ≤ request.length := by
    simp only [hR, List.length_append, WriteBlock.length_bytes, hpre]
    omega
  simp only [parseWrites, hlen, htake, hdataLen, ← hw.data]
  rw [if_neg (by omega), if_neg (by omega)]
  cases resolveAddress w.name with
  | none => rfl
  | some addr =>
      dsimp only
      rw [if_neg (by omega), if_neg (by omega)]

theorem next_field {a b : List UInt8} (hR : request = pre ++ ((a ++ b) ++ tail))
    (hpre : pre.length = offset) :
    request = (pre ++ a) ++ (b ++ tail) ∧ (pre ++ a).length = offset + a.length := by
  refine ⟨?_, by rw [List.length_append, hpre]⟩
  rw [hR]
  simp only [List.append_assoc]

theorem next_block {w : WriteBlock} {b : List UInt8}
    (hR : request = pre ++ ((w.bytes ++ b) ++ tail)) (hpre : pre.length = offset) :
    request = (pre ++ w.bytes) ++ (b ++ tail) ∧
      (pre ++ w.bytes).length = offset + 2 + w.name.length + 2 + w.data.length := by
  obtain ⟨hR', hpre'⟩ := next_field hR hpre
  refine ⟨hR', ?_⟩
  rw [hpre', WriteBlock.length_bytes]
  omega

theorem parseNames_content {names : List (List UInt8)}
    (hfits : ∀ name ∈ names, name.length < 65536)
    (hR : request = pre ++ (names.flatMap nameBytes ++ tail))
    (hpre : pre.length = offset) :
    parseNames request names.length offset = resolveAll names := by
  induction names generalizing pre offset with
  | nil => rfl
  | cons name names ih =>
      obtain ⟨hname, hnames⟩ := List.forall_mem_cons.mp hfits
      rw [List.flatMap_cons] at hR
      obtain ⟨hR', hpre'⟩ := next_field hR hpre
      rw [length_nameBytes, ← Nat.add_assoc] at hpre'
      rw [List.append_assoc] at hR
      rw [List.length_cons, parseNames_cons hname hR hpre, ih hnames hR' hpre']
      rfl

theorem parseWrites_fault {blocks : List WriteBlock} (hfits : ∀ w ∈ blocks, w.Fits)
    (hR : request = pre ++ (blocks.flatMap WriteBlock.bytes ++ tail))
    (hpre : pre.length = offset) :
    (parseWrites beyond request blocks.length offset).2 =
      (resolveAll (blocks.map WriteBlock.name)).2 := by
  induction blocks generalizing pre offset with
  | nil => rfl
  | cons w blocks ih =>
      obtain ⟨hw, hblocks⟩ := List.forall_mem_cons.mp hfits
      rw [List.flatMap_cons] at hR
      obtain ⟨hR', hpre'⟩ := next_block hR hpre
      rw [List.append_assoc] at hR
      rw [List.length_cons, parseWrites_cons hw hR hpre, List.map_cons, resolveAll]
      cases resolveAddress w.name with
      | none => rfl
      | some addr => exact ih hblocks hR' hpre'

end Wire

/-! ## Continuous requests -/

/-- What a continuous request has in front of its name. -/
structure RunHead (head : List UInt8) (command : UInt16) : Prop where
  length : head.length = 28
  command : le16 head 20 = command
  dataType : le16 head 22 = 0x0014

/-- What the server finds where in a continuous request. -/
structure RunFields (request : List UInt8) (command count : UInt16)
    (name rest : List UInt8) : Prop where
  length : request.length = 30 + name.length + 2 + rest.length
  command : le16 request 20 = command
  dataType : le16 request 22 = 0x0014
  varLen : (le16 request 28).toNat = name.length
  varName : (request.drop 30).take name.length = name
  count : le16 request (30 + name.length) = count
  rest : request.drop (30 + name.length + 2) = rest

theorem run_fields {head name rest : List UInt8} {command count : UInt16}
    (hhead : RunHead head command) (hname : name.length < 65536) :
    RunFields (head ++ (nameBytes name ++ (leBytes count ++ rest))) command count name
      rest := by
  obtain ⟨hlen, hcommand, hdataType⟩ := hhead
  obtain ⟨request, hR⟩ :
      ∃ request, head ++ (nameBytes name ++ (leBytes count ++ rest)) = request := ⟨_, rfl⟩
  obtain ⟨hvarLen, htake, -⟩ := field_at hname hR.symm hlen
  have hpre : (head ++ nameBytes name).length = 30 + name.length := by
    rw [List.length_append, length_nameBytes, hlen]
    omega
  have hR' : (head ++ nameBytes name) ++ (leBytes count ++ rest) = request := by
    rw [← hR, List.append_assoc]
  rw [hR]
  refine ⟨?_, ?_, ?_, hvarLen, htake, ?_, ?_⟩
  · rw [← hR', List.length_append, hpre, List.length_append, Bytes.length_leBytes]
    omega
  · rw [← hR, Bytes.le16_append_left _ _ (by omega), hcommand]
  · rw [← hR, Bytes.le16_append_left _ _ (by omega), hdataType]
  · rw [← hR', Bytes.le16_at _ _ _ hpre]
  · have hpre' : ((head ++ nameBytes name) ++ leBytes count).length =
        30 + name.length + 2 := by
      rw [List.length_append, hpre, Bytes.length_leBytes]
    rw [← hR', ← List.append_assoc, ← hpre', List.drop_left]

section Run

variable {beyond : Nat → UInt8} {m : PlcMemory} {request name rest : List UInt8}
  {count : UInt16}

theorem execute_runWrite (h : RunFields request 0x0058 count name rest)
    (hlen : (writeDataLen count).toNat ≤ rest.length) :
    execute beyond request m =
      match resolveAddress name with
      | none => (m, [], some .address)
      | some addr =>
          ((List.range ((writeDataLen count).toNat / 2)).foldl
            (fun m i => m.writeLSWord (UInt16.ofNat (addr.index.toNat + i))
              (le16 request (30 + name.length + 2 + i * 2))) m, [], none) := by
  have hsize := h.length
  rw [execute_run (by omega) h.dataType h.varLen (by omega), h.command, if_neg (by decide),
    if_pos rfl, h.varName, writeRun, if_neg (by omega)]
  dsimp only
  rw [h.count, if_neg (by omega)]
  cases resolveAddress name with
  | none => rfl
  | some addr => rfl

theorem execute_runRead (h : RunFields request 0x0054 count name rest) :
    execute beyond request m =
      match resolveAddress name with
      | none => (m, [], some .address)
      | some addr =>
          (m, leBytes count ++ (List.range (count.toNat / 2)).flatMap fun i =>
            leBytes (m.readLSWord (UInt16.ofNat (addr.index.toNat + i))), none) := by
  have hsize := h.length
  rw [execute_run (by omega) h.dataType h.varLen (by omega), h.command, if_pos rfl, h.varName]
  unfold readRun
  rw [if_neg (by omega), h.count]
  cases resolveAddress name with
  | none => rfl
  | some addr => rfl

end Run

/-! ## All names resolved, or not -/

theorem resolveAll_fault (names : List (List UInt8)) :
    (resolveAll names).2 =
      if ∀ name ∈ names, (resolveAddress name).isSome then none else some .address := by
  induction names with
  | nil => rfl
  | cons name names ih =>
      rw [resolveAll]
      cases haddr : resolveAddress name with
      | none => simp [haddr]
      | some addr => simp [haddr, ih]

end XgtServer

end VPlc
