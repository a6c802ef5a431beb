import VPlc.Core.Block
import VPlc.Proofs.XgtWalk

/-!
# Runs of words

A continuous write stores as many words as its data length says, and a
continuous read returns as many as its byte count says. The two counts mean the
same, with one exception: a data length of 32 bytes is taken for the 2 that one
client library means by it, while a byte count of 32 is 32. So a run of sixteen
words is acknowledged and only its first word stored (`storedCount`).
-/

namespace VPlc

open Bytes (leBytes le16)
open PlcMemory (Stored)

namespace XgtServer

/-! ## Requests -/

/-- The two bytes that count, for `n` words. -/
def byteCount (n : Nat) : List UInt8 := leBytes (UInt16.ofNat (2 * n))

def runWrite (head name : List UInt8) (words : List UInt16) (tail : List UInt8) :
    List UInt8 :=
  head ++ (nameBytes name ++ (byteCount words.length ++ (words.flatMap leBytes ++ tail)))

def runRead (head name : List UInt8) (n : Nat) (tail : List UInt8) : List UInt8 :=
  head ++ (nameBytes name ++ (byteCount n ++ tail))

/-- How many of `n` words a continuous write stores. -/
def storedCount (n : Nat) : Nat := if n = 16 then 1 else n

theorem storedCount_le (n : Nat) : storedCount n ≤ n := by
  rw [storedCount]
  split
  · omega
  · exact Nat.le_refl n

theorem writeDataLen_words {n : Nat} (h : 2 * n < 65536) :
    (writeDataLen (UInt16.ofNat (2 * n))).toNat = 2 * storedCount n := by
  have hn : (UInt16.ofNat (2 * n)).toNat = 2 * n := UInt16.toNat_ofNat_of_lt' h
  rw [writeDataLen, storedCount]
  split
  · next heq =>
      rw [heq] at hn
      have h32 : (0x0020 : UInt16).toNat = 32 := rfl
      rw [if_pos (by omega)]
      rfl
  · next hne =>
      rw [hn, if_neg]
      rintro rfl
      exact hne rfl

/-! ## What they do -/

section Run

variable (beyond : Nat → UInt8) (m : PlcMemory) {head name : List UInt8}
  (words : List UInt16) {addr : LsAddress}

/-- A write that fits is acknowledged, and stores the first `storedCount` words. -/
theorem runWrite_stored (tail : List UInt8) (hhead : RunHead head 0x0058) (hname : name.length < 65536)
    (haddr : resolveAddress name = some addr)
    (hrange : addr.index.toNat + words.length ≤ 1024) :
    (execute beyond (runWrite head name words tail) m).2 = ([], none) ∧
      Stored m (execute beyond (runWrite head name words tail) m).1 .lsW addr.index.toNat
        (storedCount words.length) fun i => words.getD i 0 := by
  have hfields : RunFields (runWrite head name words tail) 0x0058 _ name _ :=
    run_fields hhead hname
  have hle := storedCount_le words.length
  have hcount := writeDataLen_words (n := words.length) (by omega)
  have hdata : (writeDataLen (UInt16.ofNat (2 * words.length))).toNat ≤
      (words.flatMap leBytes ++ tail).length := by
    rw [hcount, List.length_append, Bytes.length_flatMap_leBytes]
    omega
  rw [execute_runWrite hfields hdata, haddr, hcount, Nat.mul_div_cancel_left _ (by omega)]
  refine ⟨rfl, ?_⟩
  have hword : ∀ i, i < storedCount words.length →
      le16 (runWrite head name words tail) (30 + name.length + 2 + i * 2) =
        words.getD i 0 := by
    intro i hi
    rw [Nat.mul_comm, ← Bytes.le16_drop, hfields.rest]
    exact Bytes.le16_flatMap (by omega) tail
  refine Stored.of_foldl (w := fun i => words.getD i 0) (show _ ≤ 1024 by omega) ?_
  intro m i hi
  rw [hword i hi, PlcMemory.writeLSWord, UInt16.toNat_ofNat_of_lt' (by show _ < 65536; omega)]
  rfl

/-- A read returns what it counts out, whatever is there. -/
theorem runRead_returns (n : Nat) (tail : List UInt8) (hhead : RunHead head 0x0054)
    (hname : name.length < 65536) (haddr : resolveAddress name = some addr)
    (hrange : addr.index.toNat + n ≤ 1024) :
    execute beyond (runRead head name n tail) m =
      (m, byteCount n ++ (List.range n).flatMap fun i =>
        leBytes (m.get .lsW (addr.index.toNat + i)), none) := by
  have hn : (UInt16.ofNat (2 * n)).toNat = 2 * n :=
    UInt16.toNat_ofNat_of_lt' (by show _ < 65536; omega)
  have hfields : RunFields (runRead head name n tail) 0x0054 _ name _ :=
    run_fields hhead hname
  rw [execute_runRead hfields, haddr, hn, Nat.mul_div_cancel_left _ (by omega)]
  dsimp only
  rw [byteCount, List.flatMap_congr]
  intro i hi
  have hi := List.mem_range.mp hi
  rw [PlcMemory.readLSWord, UInt16.toNat_ofNat_of_lt' (by show _ < 65536; omega)]
  rfl

/-! ## Writing a run and reading it back -/

/-- A continuous write of `words` and a continuous read of as many behind it:
both are acknowledged, the words are stored and nothing else is, and they are
what comes back. -/
structure RunRoundTrip (beyond : Nat → UInt8) (m : PlcMemory) (addr : LsAddress)
    (words : List UInt16) (write read : List UInt8) : Prop where
  writeStatus : le16 (processRequest beyond m write).2 26 = 0
  stored : Stored m (processRequest beyond m write).1 .lsW addr.index.toNat words.length
    fun i => words.getD i 0
  readStatus :
    le16 (processRequest beyond (processRequest beyond m write).1 read).2 26 = 0
  returned :
    (processRequest beyond (processRequest beyond m write).1 read).2.drop 30 =
      byteCount words.length ++ words.flatMap leBytes

variable {beyond m words} {tail readHead readTail : List UInt8}

theorem RunRoundTrip.of_stored (hhead : RunHead head 0x0058)
    (hreadHead : RunHead readHead 0x0054) (hname : name.length < 65536)
    (haddr : resolveAddress name = some addr)
    (hrange : addr.index.toNat + words.length ≤ 1024)
    (hstored : Stored m (processRequest beyond m (runWrite head name words tail)).1 .lsW
      addr.index.toNat words.length fun i => words.getD i 0) :
    RunRoundTrip beyond m addr words (runWrite head name words tail)
      (runRead readHead name words.length readTail) := by
  obtain ⟨m', hm'⟩ :
      ∃ m', (processRequest beyond m (runWrite head name words tail)).1 = m' := ⟨_, rfl⟩
  have hfields : RunFields (runRead readHead name words.length readTail) 0x0054 _ name _ :=
    run_fields hreadHead hname
  have hlen := hfields.length
  have hexecute := runRead_returns beyond m' words.length readTail hreadHead hname haddr hrange
  refine ⟨?_, hstored, ?_, ?_⟩
  · rw [status_processRequest,
      (runWrite_stored beyond m words tail hhead hname haddr hrange).1]
    rfl
  · rw [hm', status_processRequest, hexecute]
    rfl
  · rw [hm'] at hstored ⊢
    rw [processRequest, hexecute]
    dsimp only
    rw [reply_none, drop_respond (by omega), ← Bytes.flatMap_range_getD leBytes words]
    refine congrArg (byteCount words.length ++ ·) (List.flatMap_congr ?_)
    intro i hi
    rw [hstored.written i (List.mem_range.mp hi)]

end Run

/-- Every run comes back as it was sent but one of sixteen words, and that one
too if the last fifteen were there already. -/
theorem xgt_run_roundTrip_iff (beyond : Nat → UInt8) (m : PlcMemory) (name : List UInt8)
    (addr : LsAddress) (words : List UInt16) (head tail readHead readTail : List UInt8)
    (hhead : RunHead head 0x0058) (hreadHead : RunHead readHead 0x0054)
    (hname : name.length < 65536) (haddr : resolveAddress name = some addr)
    (hrange : addr.index.toNat + words.length ≤ 1024) :
    RunRoundTrip beyond m addr words (runWrite head name words tail)
        (runRead readHead name words.length readTail) ↔
      words.length ≠ 16 ∨
        ∀ k, 1 ≤ k → k < 16 → m.get .lsW (addr.index.toNat + k) = words.getD k 0 := by
  have hstored := (runWrite_stored beyond m words tail hhead hname haddr hrange).2
  have hextend := hstored.extend_iff (storedCount_le _) hrange
  by_cases hlen : words.length = 16
  · rw [storedCount, if_pos hlen, hlen] at hextend
    have hback : RunRoundTrip beyond m addr words (runWrite head name words tail)
        (runRead readHead name words.length readTail) ↔ _ :=
      ⟨RunRoundTrip.stored, RunRoundTrip.of_stored hhead hreadHead hname haddr hrange⟩
    rw [hback, hlen]
    exact hextend.trans ⟨Or.inr, fun h => h.resolve_left (not_not.mpr rfl)⟩
  · refine iff_of_true ?_ (Or.inl hlen)
    rw [storedCount, if_neg hlen] at hstored
    exact .of_stored hhead hreadHead hname haddr hrange hstored

/-! ## Two runs -/

def runHead (command : UInt8) : List UInt8 :=
  lsisXgt ++ [0, 0, 0, 0, 0, 0x33, 0, 0, 49, 0] ++ [0, 0, command, 0, 0x14, 0, 0, 0, 1, 0]

theorem runHead_write : RunHead (runHead 0x58) 0x0058 := ⟨rfl, rfl, rfl⟩

def nameMW10 : List UInt8 := [0x25, 0x4D, 0x57, 0x31, 0x30]

theorem xgt_run_roundTrip_pair :
    RunRoundTrip (fun _ => 0) PlcMemory.default ⟨'M', false, 10, 0⟩ [7, 8]
      (runWrite (runHead 0x58) nameMW10 [7, 8] []) (runRead (runHead 0x54) nameMW10 2 []) :=
  (xgt_run_roundTrip_iff (fun _ => 0) PlcMemory.default nameMW10 ⟨'M', false, 10, 0⟩ [7, 8]
    (runHead 0x58) [] (runHead 0x54) [] runHead_write ⟨rfl, rfl, rfl⟩ (by decide) rfl
    (by decide)).mpr (Or.inl (by decide))

/-- Sixteen ones to an empty memory. -/
theorem xgt_run_roundTrip_fails :
    ¬ RunRoundTrip (fun _ => 0) PlcMemory.default ⟨'M', false, 10, 0⟩ (List.replicate 16 1)
      (runWrite (runHead 0x58) nameMW10 (List.replicate 16 1) [])
      (runRead (runHead 0x54) nameMW10 16 []) := by
  intro h
  have haddr : resolveAddress nameMW10 = some ⟨'M', false, 10, 0⟩ := rfl
  have hstored := (runWrite_stored (fun _ => 0) PlcMemory.default (List.replicate 16 1) []
    runHead_write (by decide) haddr (by decide)).2
  have hle : storedCount (List.replicate 16 (1 : UInt16)).length ≤ 16 := by decide
  have hsecond := (hstored.extend_iff hle (by decide)).mp h.stored 1 (by decide) (by decide)
  rw [PlcMemory.get_default] at hsecond
  exact absurd hsecond (by decide)

end XgtServer

end VPlc
