import VPlc.Core.Calls
import VPlc.Xgt.Request

/-!
# An XGT request, call by call

Blocks are resolved and carried out one after the other, so a request that stops
at a bad block has made the calls of the blocks before it, and others may have
come between. A run of words is a call for each word.
-/

namespace VPlc

open Bytes (leBytes le16)
open Threads (Prog alone)

namespace XgtServer.Calls

variable (beyond : Nat → UInt8) (request : List UInt8)

/-- What a block of a read reply says. -/
def blockData (addr : LsAddress) : Prog Call Call.Ret (List UInt8) :=
  if addr.isBit then do
    let bit ← (Call.readLSBit addr.areaStr addr.flatIdx).perform
    pure (leBytes 1 ++ [if bit then 0x01 else 0x00])
  else do
    let word ← (Call.readLSWord addr.index).perform
    pure (leBytes 2 ++ leBytes word)

/-- The loop of the individual read. -/
def readBlocks : Nat → Nat → List UInt8 → Prog Call Call.Ret (List UInt8 × Option Fault)
  | 0, _, respData => pure (respData, none)
  | b + 1, offset, respData =>
      if request.length < offset + 2 then pure (respData, some .length)
      else
        let varLen := (le16 request offset).toNat
        let offset := offset + 2
        if request.length < offset + varLen then pure (respData, some .length)
        else
          match resolveAddress ((request.drop offset).take varLen) with
          | none => pure (respData, some .address)
          | some addr => do
              let data ← blockData addr
              readBlocks b (offset + varLen) (respData ++ data)

def storeBlock (addr : LsAddress) (offset : Nat) : Prog Call Call.Ret PUnit :=
  if addr.isBit then
    (Call.writeLSBit addr.areaStr addr.flatIdx (byteAt beyond request offset != 0)).perform
  else (Call.writeLSWord addr.index (wordAt beyond request offset)).perform

def writeBlocks : Nat → Nat → Prog Call Call.Ret (Option Fault)
  | 0, _ => pure none
  | b + 1, offset =>
      if request.length < offset + 2 then pure (some .length)
      else
        let varLen := (le16 request offset).toNat
        let offset := offset + 2
        if request.length < offset + varLen then pure (some .length)
        else
          match resolveAddress ((request.drop offset).take varLen) with
          | none => pure (some .address)
          | some addr =>
              let offset := offset + varLen
              if request.length < offset + 2 then pure (some .length)
              else
                let dataLen := (writeDataLen (le16 request offset)).toNat
                let offset := offset + 2
                if request.length < offset + dataLen then pure (some .length)
                else do
                  storeBlock beyond request addr offset
                  writeBlocks b (offset + dataLen)

def readRun (varLen : Nat) (addr? : Option LsAddress) :
    Prog Call Call.Ret (List UInt8 × Option Fault) :=
  if request.length < 30 + varLen + 2 then pure ([], some .length)
  else
    match addr? with
    | none => pure ([], some .address)
    | some addr => do
        let byteCount := le16 request (30 + varLen)
        let numWords := byteCount.toNat / 2
        let words ← (List.range numWords).mapM fun i =>
          (Call.readLSWord (UInt16.ofNat (addr.index.toNat + i))).perform
        pure (leBytes byteCount ++ words.flatMap leBytes, none)

def writeRun (varLen : Nat) (addr? : Option LsAddress) : Prog Call Call.Ret (Option Fault) :=
  if request.length < 30 + varLen + 2 then pure (some .length)
  else
    let dataLen := (writeDataLen (le16 request (30 + varLen))).toNat
    if request.length < 30 + varLen + 2 + dataLen then pure (some .length)
    else
      match addr? with
      | none => pure (some .address)
      | some addr => do
          let numWords := dataLen / 2
          let dataOffset := 30 + varLen + 2
          forM (List.range numWords) fun i =>
            (Call.writeLSWord (UInt16.ofNat (addr.index.toNat + i))
              (le16 request (dataOffset + i * 2))).perform
          pure none

/-- What a request does, the reply's data and the fault. -/
def execute : Prog Call Call.Ret (List UInt8 × Option Fault) :=
  if request.length < 30 then pure ([], some .request)
  else
    let command := le16 request 20
    let dataType := le16 request 22
    if dataType = 0x0014 then
      let varLen := (le16 request 28).toNat
      if request.length < 30 + varLen then pure ([], some .name)
      else
        let addr? := resolveAddress ((request.drop 30).take varLen)
        if command = 0x0054 then readRun request varLen addr?
        else if command = 0x0058 then do
          let fault ← writeRun request varLen addr?
          pure ([], fault)
        else pure ([], some .command)
    else
      let blockCount := (le16 request 26).toNat
      if command = 0x0054 then readBlocks request blockCount 28 []
      else if command = 0x0058 then do
        let fault ← writeBlocks beyond request blockCount 28
        pure ([], fault)
      else pure ([], some .command)

def processRequest : Prog Call Call.Ret (List UInt8) := do
  let r ← execute beyond request
  pure (reply request r.1 r.2)

/-! ## With nobody else around -/

section Alone

variable (m : PlcMemory)

theorem alone_blockData (addr : LsAddress) :
    alone Call.exec (blockData addr) m = (m, XgtServer.blockData m addr) := by
  unfold blockData XgtServer.blockData
  split <;> rfl

theorem alone_readBlocks (b offset : Nat) (respData : List UInt8) :
    alone Call.exec (readBlocks request b offset respData) m =
      (m, XgtServer.readBlocks request m b offset respData) := by
  induction b generalizing offset respData with
  | zero => rfl
  | succ b ih =>
      unfold readBlocks XgtServer.readBlocks
      dsimp only
      split
      · rfl
      split
      · rfl
      cases resolveAddress ((request.drop (offset + 2)).take (le16 request offset).toNat) with
      | none => rfl
      | some addr =>
          dsimp only
          rw [Prog.bind_def, Threads.alone_bind, alone_blockData, ih]

theorem alone_storeBlock (addr : LsAddress) (offset : Nat) :
    alone Call.exec (storeBlock beyond request addr offset) m =
      (XgtServer.storeBlock beyond request m addr offset, ⟨⟩) := by
  unfold storeBlock XgtServer.storeBlock
  split <;> rfl

theorem alone_writeBlocks (b offset : Nat) :
    alone Call.exec (writeBlocks beyond request b offset) m =
      XgtServer.writeBlocks beyond request b offset m := by
  induction b generalizing m offset with
  | zero => rfl
  | succ b ih =>
      unfold writeBlocks XgtServer.writeBlocks
      dsimp only
      split
      · rfl
      split
      · rfl
      cases resolveAddress ((request.drop (offset + 2)).take (le16 request offset).toNat) with
      | none => rfl
      | some addr =>
          dsimp only
          split
          · rfl
          split
          · rfl
          · rw [Prog.bind_def, Threads.alone_bind, alone_storeBlock, ih]

theorem alone_readRun (varLen : Nat) (addr? : Option LsAddress) :
    alone Call.exec (readRun request varLen addr?) m =
      (m, XgtServer.readRun request m varLen addr?) := by
  unfold readRun XgtServer.readRun
  split
  · rfl
  · cases addr? with
    | none => rfl
    | some addr =>
        have hloop := Threads.alone_mapM Call.exec (s := m)
          (List.range ((le16 request (30 + varLen)).toNat / 2)) fun i _ =>
            Call.alone_perform (.readLSWord (UInt16.ofNat (addr.index.toNat + i))) m
        simp only [Prog.bind_def, Threads.alone_bind, hloop, List.flatMap_map]
        rfl

theorem alone_writeRun (varLen : Nat) (addr? : Option LsAddress) :
    alone Call.exec (writeRun request varLen addr?) m =
      XgtServer.writeRun request m varLen addr? := by
  unfold writeRun XgtServer.writeRun
  dsimp only
  split
  · rfl
  split
  · rfl
  · cases addr? with
    | none => rfl
    | some addr =>
        dsimp only
        rw [Prog.bind_def, Threads.alone_bind,
          Threads.alone_forM Call.exec _ fun _ _ _ => rfl]
        rfl

theorem alone_execute :
    alone Call.exec (execute beyond request) m = XgtServer.execute beyond request m := by
  simp only [execute, Threads.alone_ite, Prog.bind_def, Threads.alone_bind, alone_readRun,
    alone_writeRun, alone_readBlocks, alone_writeBlocks]
  rfl

theorem alone_processRequest :
    alone Call.exec (processRequest beyond request) m =
      XgtServer.processRequest beyond m request := by
  rw [processRequest, Prog.bind_def, Threads.alone_bind, alone_execute]
  rfl

end Alone

/-! ## Which calls are made -/

section Calls

theorem calls_blockData (addr : LsAddress) : (blockData addr).Calls (Call.Of .ls) := by
  unfold blockData
  refine .ite ?_ ?_
  · exact (Call.calls_perform rfl).bind fun _ => trivial
  · exact (Call.calls_perform rfl).bind fun _ => trivial

theorem calls_readBlocks (b offset : Nat) (respData : List UInt8) :
    (readBlocks request b offset respData).Calls (Call.Of .ls) := by
  induction b generalizing offset respData with
  | zero => trivial
  | succ b ih =>
      unfold readBlocks
      refine .ite trivial (.ite trivial ?_)
      cases resolveAddress ((request.drop (offset + 2)).take (le16 request offset).toNat) with
      | none => trivial
      | some addr => exact (calls_blockData addr).bind fun data => ih _ _

theorem calls_storeBlock (addr : LsAddress) (offset : Nat) :
    (storeBlock beyond request addr offset).Calls (Call.Of .ls) := by
  unfold storeBlock
  exact .ite (Call.calls_perform rfl) (Call.calls_perform rfl)

theorem calls_writeBlocks (b offset : Nat) :
    (writeBlocks beyond request b offset).Calls (Call.Of .ls) := by
  induction b generalizing offset with
  | zero => trivial
  | succ b ih =>
      unfold writeBlocks
      refine .ite trivial (.ite trivial ?_)
      cases resolveAddress ((request.drop (offset + 2)).take (le16 request offset).toNat) with
      | none => trivial
      | some addr =>
          refine .ite trivial (.ite trivial ?_)
          exact (calls_storeBlock beyond request addr _).bind fun _ => ih _

theorem calls_readRun (varLen : Nat) (addr? : Option LsAddress) :
    (readRun request varLen addr?).Calls (Call.Of .ls) := by
  unfold readRun
  refine .ite trivial ?_
  cases addr? with
  | none => trivial
  | some addr =>
      refine Prog.Calls.bind (Prog.Calls.mapM _ fun i _ => ?_) fun _ => trivial
      exact Call.calls_perform rfl

theorem calls_writeRun (varLen : Nat) (addr? : Option LsAddress) :
    (writeRun request varLen addr?).Calls (Call.Of .ls) := by
  unfold writeRun
  refine .ite trivial (.ite trivial ?_)
  cases addr? with
  | none => trivial
  | some addr =>
      refine Prog.Calls.bind (Prog.Calls.forM _ fun i _ => ?_) fun _ => trivial
      exact Call.calls_perform rfl

theorem calls_processRequest : (processRequest beyond request).Calls (Call.Of .ls) := by
  refine Prog.Calls.bind ?_ fun _ => trivial
  unfold execute
  refine .ite trivial (.ite (.ite trivial ?_) ?_)
  · refine .ite (calls_readRun request _ _) (.ite ?_ trivial)
    exact (calls_writeRun request _ _).bind fun _ => trivial
  · refine .ite (calls_readBlocks request _ _ _) (.ite ?_ trivial)
    exact (calls_writeBlocks beyond request _ _).bind fun _ => trivial

end Calls

/-! ## One cell -/

/-- How many cells a request is about. -/
def cells : Nat :=
  if le16 request 22 = 0x0014 then
    let count := le16 request (30 + (le16 request 28).toNat)
    if le16 request 20 = 0x0054 then count.toNat / 2 else (writeDataLen count).toNat / 2
  else (le16 request 26).toNat

section Atomic

variable {I : PlcMemory → Prop} {request}

theorem atomic_blockData (addr : LsAddress) :
    Threads.Atomic Call.exec I (blockData addr) := by
  unfold blockData
  refine .ite (fun _ => ?_) fun _ => ?_
  · exact (Call.atomic_perform (.readLSBit _ _)).map _
  · exact (Call.atomic_perform (.readLSWord _)).map _

theorem atomic_readBlocks {b : Nat} (h : b ≤ 1) (offset : Nat) (respData : List UInt8) :
    Threads.Atomic Call.exec I (readBlocks request b offset respData) := by
  obtain rfl | rfl : b = 0 ∨ b = 1 := by omega
  · exact .ret _
  · unfold readBlocks
    refine .ite (fun _ => .ret _) fun _ => .ite (fun _ => .ret _) fun _ => ?_
    cases resolveAddress ((request.drop (offset + 2)).take (le16 request offset).toNat) with
    | none => exact .ret _
    | some addr => exact (atomic_blockData addr).map _

theorem atomic_writeBlocks {b : Nat} (h : b ≤ 1) (offset : Nat) :
    Threads.Atomic Call.exec I (writeBlocks beyond request b offset) := by
  obtain rfl | rfl : b = 0 ∨ b = 1 := by omega
  · exact .ret _
  · unfold writeBlocks
    refine .ite (fun _ => .ret _) fun _ => .ite (fun _ => .ret _) fun _ => ?_
    cases resolveAddress ((request.drop (offset + 2)).take (le16 request offset).toNat) with
    | none => exact .ret _
    | some addr =>
        refine .ite (fun _ => .ret _) fun _ => .ite (fun _ => .ret _) fun _ => ?_
        have hstore : Threads.Atomic Call.exec I
            (storeBlock beyond request addr (offset + 2 + (le16 request offset).toNat + 2)) :=
          .ite (fun _ => Call.atomic_perform _) fun _ => Call.atomic_perform _
        exact hstore.map _

theorem atomic_readRun {varLen : Nat} (h : (le16 request (30 + varLen)).toNat / 2 ≤ 1)
    (addr? : Option LsAddress) :
    Threads.Atomic Call.exec I (readRun request varLen addr?) := by
  refine .ite (fun _ => .ret _) fun _ => ?_
  cases addr? with
  | none => exact .ret _
  | some addr =>
      have hloop : Threads.Atomic Call.exec I
          ((List.range ((le16 request (30 + varLen)).toNat / 2)).mapM fun i =>
            (Call.readLSWord (UInt16.ofNat (addr.index.toNat + i))).perform) :=
        .mapM h fun _ => Call.atomic_perform _
      exact hloop.map _

theorem atomic_writeRun {varLen : Nat}
    (h : (writeDataLen (le16 request (30 + varLen))).toNat / 2 ≤ 1)
    (addr? : Option LsAddress) :
    Threads.Atomic Call.exec I (writeRun request varLen addr?) := by
  refine .ite (fun _ => .ret _) fun _ => .ite (fun _ => .ret _) fun _ => ?_
  cases addr? with
  | none => exact .ret _
  | some addr =>
      have hloop : Threads.Atomic Call.exec I
          (forM (List.range ((writeDataLen (le16 request (30 + varLen))).toNat / 2)) fun i =>
            (Call.writeLSWord (UInt16.ofNat (addr.index.toNat + i))
              (le16 request (30 + varLen + 2 + i * 2))).perform) :=
        .forM h fun _ => Call.atomic_perform _
      exact hloop.map _

theorem atomic_processRequest (h : cells request ≤ 1) :
    Threads.Atomic Call.exec I (processRequest beyond request) := by
  suffices hexec : Threads.Atomic Call.exec I (execute beyond request) from hexec.map _
  unfold cells at h
  unfold execute
  refine .ite (fun _ => .ret _) fun _ => .ite (fun htype => ?_) fun htype => ?_
  · rw [if_pos htype] at h
    refine .ite (fun _ => .ret _) fun _ => .ite (fun hread => ?_) fun hread => ?_
    · rw [if_pos hread] at h
      exact atomic_readRun h _
    · rw [if_neg hread] at h
      exact .ite (fun _ => (atomic_writeRun h _).map _) fun _ => .ret _
  · rw [if_neg htype] at h
    refine .ite (fun _ => atomic_readBlocks h _ _) fun _ => .ite (fun _ => ?_) fun _ => .ret _
    exact (atomic_writeBlocks beyond h _).map _

end Atomic

end XgtServer.Calls

end VPlc
