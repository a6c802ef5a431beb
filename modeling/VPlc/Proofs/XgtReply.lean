import VPlc.Proofs.XgtRun

/-!
# What an XGT reply says about itself

A reply carries up to three kinds of length: the frame length in its header, the
number of blocks, and the size in front of each block. The sizes of an
individual read are right by construction. A continuous read echoes the byte
count it was asked for, and fetches whole words, so an odd count announces a byte
that does not come. And the frame length is narrowed to sixteen bits, which a
request for enough data overflows (`xgt_reply_describes_iff`).
-/

namespace VPlc

open Bytes (leBytes le16)

namespace XgtServer

/-! ## Replies that describe themselves -/

/-- The frame length field counts the bytes behind the header. -/
def Framed (reply : List UInt8) : Prop := (le16 reply 16).toNat = (reply.drop 18).length

/-- Data behind a size field that counts it. -/
def Sized (data : List UInt8) : Prop :=
  2 ≤ data.length ∧ (le16 data 0).toNat = (data.drop 2).length

/-- Exactly `n` blocks, each behind its size field. -/
def Blocks : Nat → List UInt8 → Prop
  | 0, data => data = []
  | n + 1, data => 2 ≤ data.length ∧ 2 + (le16 data 0).toNat ≤ data.length ∧
      Blocks n (data.drop (2 + (le16 data 0).toNat))

structure Describes (request reply : List UInt8) : Prop where
  framed : Framed reply
  run : le16 reply 26 = 0 → le16 request 20 = 0x0054 → le16 request 22 = 0x0014 →
    Sized (reply.drop 30)
  blocks : le16 reply 26 = 0 → le16 request 20 = 0x0054 → le16 request 22 ≠ 0x0014 →
    Blocks (le16 reply 28).toNat (reply.drop 30)

/-! ## Requests that can be answered so -/

/-- The name of a continuous request. -/
def runName (request : List UInt8) : List UInt8 :=
  (request.drop 30).take (le16 request 28).toNat

/-- The number behind it. -/
def runCount (request : List UInt8) : UInt16 := le16 request (30 + (le16 request 28).toNat)

/-- A continuous read that gets as far as the memory. -/
structure RunRead (request : List UInt8) : Prop where
  command : le16 request 20 = 0x0054
  dataType : le16 request 22 = 0x0014
  whole : 30 + (le16 request 28).toNat + 2 ≤ request.length
  resolves : (resolveAddress (runName request)).isSome = true

/-- The bytes of the blocks an individual read asks for: three for a bit, four
for a word, up to the first name at fault. -/
def blocksSize (request : List UInt8) : Nat :=
  ((parseNames request (le16 request 26).toNat 28).1.map fun addr =>
    2 + addr.size.toNat).sum

/-- What a request has to keep to. -/
structure Answerable (request : List UInt8) : Prop where
  run : RunRead request →
    (runCount request).toNat % 2 = 0 ∧ (runCount request).toNat ≤ 65520
  blocks : le16 request 20 = 0x0054 → le16 request 22 ≠ 0x0014 → blocksSize request ≤ 65523

/-! ## Blocks -/

section Blocks

variable {request : List UInt8}

theorem LsAddress.length_replyBlock (addr : LsAddress) (v : UInt16) :
    (addr.replyBlock v).length = 2 + addr.size.toNat := by
  rw [replyBlock, size]
  split
  · rfl
  · rfl

theorem blocks_cons {n : Nat} {size : UInt16} {data rest : List UInt8}
    (hsize : size.toNat = data.length) :
    Blocks (n + 1) (leBytes size ++ data ++ rest) ↔ Blocks n rest := by
  have hfield : le16 (leBytes size ++ data ++ rest) 0 = size := by
    rw [List.append_assoc, Bytes.le16_leBytes]
  have hlen : (leBytes size ++ data).length = 2 + data.length := by
    rw [List.length_append, Bytes.length_leBytes]
  have hdrop : (leBytes size ++ data ++ rest).drop (2 + data.length) = rest := by
    rw [← hlen, List.drop_left]
  rw [Blocks, hfield, hsize, hdrop, List.length_append, hlen]
  constructor
  · intro h
    exact h.2.2
  · intro h
    exact ⟨by omega, by omega, h⟩

theorem blocks_replyBlock (addrs : List LsAddress) (v : LsAddress → UInt16) :
    Blocks addrs.length (addrs.flatMap fun addr => addr.replyBlock (v addr)) := by
  induction addrs with
  | nil => rfl
  | cons addr addrs ih =>
      rw [List.flatMap_cons, List.length_cons, LsAddress.replyBlock]
      refine (blocks_cons ?_).mpr ih
      rw [LsAddress.size]
      split
      · rfl
      · rfl

theorem length_replyBlocks (addrs : List LsAddress) (v : LsAddress → UInt16) :
    (addrs.flatMap fun addr => addr.replyBlock (v addr)).length =
      (addrs.map fun addr => 2 + addr.size.toNat).sum := by
  rw [List.length_flatMap]
  simp only [LsAddress.length_replyBlock]

theorem length_parseNames {b offset : Nat} (h : (parseNames request b offset).2 = none) :
    (parseNames request b offset).1.length = b := by
  induction b generalizing offset with
  | zero => rfl
  | succ b ih =>
      simp only [parseNames] at h ⊢
      split at h
      · cases h
      next hlen =>
      split at h
      · cases h
      next hname =>
      rw [if_neg hlen, if_neg hname]
      split at h
      · cases h
      next addr haddr =>
      rw [List.length_cons, ih h]

end Blocks

/-! ## The frame length -/

section Frame

variable {request : List UInt8}

theorem framed_errorReply (cmd status : UInt16) : Framed (errorReply cmd status) := by
  have hfield : le16 (errorReply cmd status) 16 = 12 := Bytes.word_high_low 12
  rw [Framed, hfield]
  rfl

theorem le16_respond (hlen : 12 ≤ request.length) (respData : List UInt8) (status : UInt16) :
    le16 (respond request respData status) 16 = UInt16.ofNat (12 + respData.length) := by
  have htake : (request.take 12).length = 12 := by
    rw [List.length_take]
    omega
  simp only [respond, List.append_assoc]
  rw [← List.append_assoc]
  refine Bytes.le16_at _ _ _ ?_
  rw [List.length_append, htake]
  rfl

theorem length_respond (hlen : 12 ≤ request.length) (respData : List UInt8)
    (status : UInt16) : (respond request respData status).length = 30 + respData.length := by
  obtain ⟨pre, hpre, heq⟩ := respond_eq hlen respData status
  simp only [heq, List.length_append, hpre, Bytes.length_leBytes]
  omega

theorem framed_respond (hlen : 12 ≤ request.length) (respData : List UInt8)
    (status : UInt16) :
    Framed (respond request respData status) ↔ respData.length ≤ 65523 := by
  rw [Framed, le16_respond hlen, List.length_drop, length_respond hlen, UInt16.toNat_ofNat']
  omega

theorem framed_reply (hlen : 12 ≤ request.length) {respData : List UInt8}
    {fault : Option Fault} (h : fault ∈ [some .request, some .name] → respData = []) :
    Framed (reply request respData fault) ↔ respData.length ≤ 65523 := by
  by_cases hfault : fault ∈ [some .request, some .name]
  · have hframed : Framed (reply request respData fault) := by
      simp only [List.mem_cons, List.not_mem_nil, or_false] at hfault
      rcases hfault with rfl | rfl
      · exact framed_errorReply _ _
      · exact framed_errorReply _ _
    rw [h hfault]
    exact iff_of_true (by rwa [h hfault] at hframed) (Nat.zero_le _)
  · rw [reply_late hfault, framed_respond hlen]

end Frame

/-! ## The data -/

section Data

variable {beyond : Nat → UInt8} {m : PlcMemory} {request : List UInt8}

theorem data_of_write (hlen : 30 ≤ request.length) (hcommand : le16 request 20 = 0x0058) :
    (execute beyond request m).2.1 = [] := by
  have hread : ¬ ((0x0058 : UInt16) = 0x0054) := by decide
  by_cases hdataType : le16 request 22 = 0x0014
  · by_cases hname : request.length < 30 + (le16 request 28).toNat
    · rw [execute_unnamed hlen hdataType hname]
    · rw [execute_run hlen hdataType rfl (by omega), hcommand, if_neg hread, if_pos rfl]
  · rw [execute_blocks hlen hdataType, hcommand, if_neg hread, if_pos rfl]

theorem RunRead.fields (hread : RunRead request) : ∃ rest,
    RunFields request 0x0054 (runCount request) (runName request) rest := by
  obtain ⟨hcommand, hdataType, hwhole, -⟩ := hread
  have hlen : (runName request).length = (le16 request 28).toNat := by
    rw [runName, List.length_take, List.length_drop]
    omega
  refine ⟨request.drop (30 + (runName request).length + 2), ?_, hcommand, hdataType, hlen.symm,
    by rw [hlen]; rfl, by rw [hlen]; rfl, rfl⟩
  rw [List.length_drop]
  omega

/-- A continuous read that gets as far as the memory is answered with the count
and as many whole words. -/
theorem execute_runRead_of (hread : RunRead request) :
    ∃ addr : LsAddress, execute beyond request m =
      (m, leBytes (runCount request) ++
        (List.range ((runCount request).toNat / 2)).flatMap fun i =>
          leBytes (m.readLSWord (UInt16.ofNat (addr.index.toNat + i))), none) := by
  obtain ⟨rest, hfields⟩ := hread.fields
  obtain ⟨addr, haddr⟩ := Option.isSome_iff_exists.mp hread.resolves
  have hexecute := @execute_runRead beyond m _ _ _ _ hfields
  rw [haddr] at hexecute
  exact ⟨addr, hexecute⟩

/-- Any other stops without data. -/
theorem execute_runRead_fault (hlen : 30 ≤ request.length)
    (hcommand : le16 request 20 = 0x0054) (hdataType : le16 request 22 = 0x0014)
    (hread : ¬ RunRead request) :
    (execute beyond request m).2.1 = [] ∧ (execute beyond request m).2.2 ≠ none := by
  by_cases hname : request.length < 30 + (le16 request 28).toNat
  · rw [execute_unnamed hlen hdataType hname]
    exact ⟨rfl, Option.some_ne_none _⟩
  rw [execute_run hlen hdataType rfl (by omega), if_pos hcommand]
  unfold readRun
  by_cases hcount : request.length < 30 + (le16 request 28).toNat + 2
  · rw [if_pos hcount]
    exact ⟨rfl, Option.some_ne_none _⟩
  rw [if_neg hcount]
  cases haddr : resolveAddress ((request.drop 30).take (le16 request 28).toNat) with
  | none => exact ⟨rfl, Option.some_ne_none _⟩
  | some addr =>
      have hresolves : (resolveAddress (runName request)).isSome = true := by
        rw [runName, haddr]
        rfl
      exact absurd ⟨hcommand, hdataType, by omega, hresolves⟩ hread

end Data

/-! ## Which replies describe themselves -/

theorem sized_append {size : UInt16} {data : List UInt8} :
    Sized (leBytes size ++ data) ↔ size.toNat = data.length := by
  have hdrop : (leBytes size ++ data).drop 2 = data := rfl
  rw [Sized, Bytes.le16_leBytes, hdrop, List.length_append, Bytes.length_leBytes]
  exact and_iff_right (by omega)

section Describes

variable {beyond : Nat → UInt8} {m : PlcMemory} {request : List UInt8}

theorem reply_of_status (hlen : 30 ≤ request.length)
    (h : le16 (processRequest beyond m request).2 26 = 0) :
    (execute beyond request m).2.2 = none ∧
      (processRequest beyond m request).2 =
        respond request (execute beyond request m).2.1 0x0000 ∧
      (processRequest beyond m request).2.drop 30 = (execute beyond request m).2.1 := by
  rw [status_processRequest, errorStatus_eq_zero] at h
  have hreply : (processRequest beyond m request).2 =
      respond request (execute beyond request m).2.1 0x0000 := by
    rw [processRequest, h]
    rfl
  exact ⟨h, hreply, by rw [hreply, drop_respond (by omega)]⟩

theorem describes_write (hlen : 30 ≤ request.length) (hcommand : le16 request 20 = 0x0058) :
    Describes request (processRequest beyond m request).2 := by
  have hread : le16 request 20 ≠ 0x0054 := by
    rw [hcommand]
    decide
  have hdata : (execute beyond request m).2.1 = [] := data_of_write hlen hcommand
  refine ⟨?_, fun _ h => absurd h hread, fun _ h => absurd h hread⟩
  rw [processRequest, framed_reply (by omega) fun _ => hdata, hdata]
  exact Nat.zero_le _

theorem describes_runRead (hlen : 30 ≤ request.length) (hcommand : le16 request 20 = 0x0054)
    (hdataType : le16 request 22 = 0x0014) :
    Describes request (processRequest beyond m request).2 ↔
      (RunRead request →
        (runCount request).toNat % 2 = 0 ∧ (runCount request).toNat ≤ 65520) := by
  by_cases hread : RunRead request
  · obtain ⟨addr, hexecute⟩ := @execute_runRead_of beyond m request hread
    have hwords : ∀ n, ((List.range n).flatMap fun i =>
        leBytes (m.readLSWord (UInt16.ofNat (addr.index.toNat + i)))).length = 2 * n := by
      intro n
      simp [List.length_flatMap, Nat.mul_comm]
    have hstatus : le16 (processRequest beyond m request).2 26 = 0 := by
      rw [status_processRequest, hexecute]
      rfl
    have hdata := (reply_of_status hlen hstatus).2.2
    have hframed : Framed (processRequest beyond m request).2 ↔
        2 + 2 * ((runCount request).toNat / 2) ≤ 65523 := by
      rw [processRequest, hexecute, framed_reply (by omega) (by simp), List.length_append,
        hwords, Bytes.length_leBytes]
    have hsized : Sized ((processRequest beyond m request).2.drop 30) ↔
        (runCount request).toNat = 2 * ((runCount request).toNat / 2) := by
      rw [hdata, hexecute, sized_append, hwords]
    constructor
    · intro h _
      have hsize := hsized.mp (h.run hstatus hcommand hdataType)
      have hframe := hframed.mp h.framed
      omega
    · intro h
      obtain ⟨heven, hle⟩ := h hread
      exact ⟨hframed.mpr (by omega), fun _ _ _ => hsized.mpr (by omega),
        fun _ _ hne => absurd hdataType hne⟩
  · obtain ⟨hdata, hfault⟩ := @execute_runRead_fault beyond m request hlen hcommand
      hdataType hread
    refine iff_of_true ⟨?_, ?_, fun _ _ hne => absurd hdataType hne⟩
      fun h => absurd h hread
    · rw [processRequest, framed_reply (by omega) fun _ => hdata, hdata]
      exact Nat.zero_le _
    · intro hstatus
      exact absurd (reply_of_status hlen hstatus).1 hfault

theorem describes_read (hlen : 30 ≤ request.length) (hcommand : le16 request 20 = 0x0054)
    (hdataType : le16 request 22 ≠ 0x0014) :
    Describes request (processRequest beyond m request).2 ↔ blocksSize request ≤ 65523 := by
  have hexecute := @execute_read beyond request m hlen hcommand hdataType
  have hframed : Framed (processRequest beyond m request).2 ↔ blocksSize request ≤ 65523 := by
    rw [processRequest, hexecute,
      framed_reply (by omega) fun h => absurd h (parseNames_late _ _), length_replyBlocks]
    rfl
  constructor
  · intro h
    exact hframed.mp h.framed
  · intro h
    refine ⟨hframed.mpr h, fun _ _ hrun => absurd hrun hdataType, ?_⟩
    intro hstatus _ _
    obtain ⟨hnone, hreply, hdata⟩ := reply_of_status hlen hstatus
    rw [hdata, hreply, blockCount_respond (by omega) _ _ hdataType, hexecute]
    rw [hexecute] at hnone
    have hblocks := blocks_replyBlock (parseNames request (le16 request 26).toNat 28).1
      fun addr => m.get addr.area addr.cellIndex
    rwa [length_parseNames hnone] at hblocks

end Describes

/-- Every reply to a read or write describes itself, but for continuous reads of
an odd byte count and for reads of more than the frame length can count. -/
theorem xgt_reply_describes_iff (beyond : Nat → UInt8) (m : PlcMemory) (request : List UInt8)
    (hlen : 30 ≤ request.length)
    (hcommand : le16 request 20 = 0x0054 ∨ le16 request 20 = 0x0058) :
    Describes request (processRequest beyond m request).2 ↔ Answerable request := by
  rcases hcommand with hread | hwrite
  · by_cases hrun : le16 request 22 = 0x0014
    · rw [describes_runRead hlen hread hrun]
      exact ⟨fun h => ⟨h, fun _ hne => absurd hrun hne⟩, fun h => h.run⟩
    · rw [describes_read hlen hread hrun]
      exact ⟨fun h => ⟨fun hr => absurd hr.dataType hrun, fun _ _ => h⟩,
        fun h => h.blocks hread hrun⟩
  · have hread : le16 request 20 ≠ 0x0054 := by
      rw [hwrite]
      decide
    refine iff_of_true (describes_write hlen hwrite) ?_
    exact ⟨fun hr => absurd hr.command hread, fun hr => absurd hr hread⟩

/-- A continuous read of the bytes from `%MW10` on. -/
def readMW10 (byteCount : UInt16) : List UInt8 :=
  runHead 0x54 ++ (nameBytes nameMW10 ++ leBytes byteCount)

theorem xgt_reply_describes_four :
    Describes (readMW10 4) (processRequest (fun _ => 0) PlcMemory.default (readMW10 4)).2 :=
  (xgt_reply_describes_iff (fun _ => 0) PlcMemory.default (readMW10 4) (by decide)
    (Or.inl rfl)).mpr ⟨fun _ => by decide, fun _ h => absurd rfl h⟩

/-- One byte is announced, and none comes. -/
theorem xgt_reply_misdescribes_odd :
    30 ≤ (readMW10 1).length ∧ le16 (readMW10 1) 20 = 0x0054 ∧
      ¬ Describes (readMW10 1)
        (processRequest (fun _ => 0) PlcMemory.default (readMW10 1)).2 := by
  refine ⟨by decide, rfl, ?_⟩
  intro h
  have hread : RunRead (readMW10 1) := ⟨rfl, rfl, by decide, rfl⟩
  have hodd := ((describes_runRead (by decide) rfl rfl).mp h hread).1
  exact absurd hodd (by decide)

end XgtServer

end VPlc
