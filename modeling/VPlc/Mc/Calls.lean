import VPlc.Core.Calls
import VPlc.Mc.Server

/-!
# An MC request, call by call

The batch commands loop over their points, and every point is a call of its own.
What lies between two of them is open to everyone: a run of words read in one
request need never have been in the memory together.
-/

namespace VPlc

open Bytes (flagAt leBytes le16 le24 packFlags)
open Threads (Prog alone)

namespace McServer.Calls

/-- Word unit read. -/
def readWords (area : String) (startAddr : UInt32) (points : Nat) :
    Prog Call Call.Ret (List UInt8) := do
  let words ← (List.range points).mapM fun i =>
    (Call.readMCWord area (pointIndex startAddr i)).perform
  pure (leBytes 0x0000 ++ words.flatMap leBytes)

/-- Bit unit read. -/
def readBits (area : String) (startAddr : UInt32) (points : Nat) :
    Prog Call Call.Ret (List UInt8) := do
  let bits ← (List.range points).mapM fun i =>
    (Call.readMCBit area (pointIndex startAddr i)).perform
  pure (leBytes 0x0000 ++ packFlags points fun i => bits.getD i false)

def writeWords (area : String) (startAddr : UInt32) (points : Nat) (request : List UInt8) :
    Prog Call Call.Ret PUnit :=
  forM (List.range points) fun i =>
    (Call.writeMCWord area (pointIndex startAddr i) (le16 request (21 + i * 2))).perform

def writeBits (area : String) (startAddr : UInt32) (points : Nat) (request : List UInt8) :
    Prog Call Call.Ret PUnit :=
  forM (List.range points) fun i =>
    (Call.writeMCBit area (pointIndex startAddr i) (flagAt (request.drop 21) i)).perform

def processRequest (request : List UInt8) : Prog Call Call.Ret (List UInt8) :=
  if request.length < 21 then pure (makeErrorResponse 0xC051)
  else
    let command := le16 request 11
    let subcommand := le16 request 13
    let startAddr := le24 request 15
    let deviceCode := request.getD 18 0
    let points := (le16 request 19).toNat
    if command = 0x0401 then
      if subcommand = 0x0000 then
        let area := getMCWordAreaName deviceCode
        if area.isEmpty then pure (makeErrorResponse 0xC05C)
        else do pure (respond request (← readWords area startAddr points))
      else if subcommand = 0x0001 then
        let area := getMCBitAreaName deviceCode
        if area.isEmpty then pure (makeErrorResponse 0xC05C)
        else do pure (respond request (← readBits area startAddr points))
      else pure (makeErrorResponse 0xC051)
    else if command = 0x1401 then
      if subcommand = 0x0000 then
        let area := getMCWordAreaName deviceCode
        if area.isEmpty then pure (makeErrorResponse 0xC05C)
        else if request.length < 21 + points * 2 then pure (makeErrorResponse 0xC051)
        else do
          writeWords area startAddr points request
          pure (respond request (leBytes 0x0000))
      else if subcommand = 0x0001 then
        let area := getMCBitAreaName deviceCode
        if area.isEmpty then pure (makeErrorResponse 0xC05C)
        else if request.length < 21 + (points + 1) / 2 then pure (makeErrorResponse 0xC051)
        else do
          writeBits area startAddr points request
          pure (respond request (leBytes 0x0000))
      else pure (makeErrorResponse 0xC051)
    else pure (makeErrorResponse 0xC051)

/-! ## With nobody else around -/

section Alone

variable (m : PlcMemory) (area : String) (startAddr : UInt32) (points : Nat)
  (request : List UInt8)

theorem alone_readWords :
    alone Call.exec (readWords area startAddr points) m =
      (m, McServer.readWords m area startAddr points) := by
  have hloop := Threads.alone_mapM Call.exec (s := m) (List.range points) fun i _ =>
    Call.alone_perform (.readMCWord area (pointIndex startAddr i)) m
  simp only [readWords, Prog.bind_def, Threads.alone_bind, hloop, McServer.readWords,
    List.flatMap_map]
  rfl

theorem packFlags_congr {f g : Nat → Bool} (n : Nat) (h : ∀ i < n, f i = g i) :
    packFlags n f = packFlags n g :=
  List.foldl_ext _ _ _ fun data i hi => by rw [h i (List.mem_range.mp hi)]

theorem alone_readBits :
    alone Call.exec (readBits area startAddr points) m =
      (m, McServer.readBits m area startAddr points) := by
  have hloop := Threads.alone_mapM Call.exec (s := m) (List.range points) fun i _ =>
    Call.alone_perform (.readMCBit area (pointIndex startAddr i)) m
  have hbits : packFlags points (fun i => (((List.range points).map fun i =>
      m.readMCBit area (pointIndex startAddr i)).getD i false)) =
      packFlags points fun i => m.readMCBit area (pointIndex startAddr i) := by
    refine packFlags_congr points fun i hi => ?_
    rw [List.getD_eq_getElem _ _ (by simpa using hi), List.getElem_map, List.getElem_range]
  simp only [readBits, Prog.bind_def, Threads.alone_bind, hloop, McServer.readBits]
  rw [← hbits]
  rfl

theorem alone_writeWords :
    alone Call.exec (writeWords area startAddr points request) m =
      (McServer.writeWords m area startAddr points request, ⟨⟩) :=
  Threads.alone_forM Call.exec (List.range points) (fun _ _ _ => rfl) m

theorem alone_writeBits :
    alone Call.exec (writeBits area startAddr points request) m =
      (McServer.writeBits m area startAddr points request, ⟨⟩) :=
  Threads.alone_forM Call.exec (List.range points) (fun _ _ _ => rfl) m

theorem alone_processRequest :
    alone Call.exec (processRequest request) m = McServer.processRequest m request := by
  simp only [processRequest, Threads.alone_ite, Prog.bind_def, Threads.alone_bind,
    alone_readWords, alone_readBits, alone_writeWords, alone_writeBits]
  rfl

end Alone

/-! ## Which calls are made -/

section Calls

variable (area : String) (startAddr : UInt32) (points : Nat) (request : List UInt8)

theorem calls_readWords : (readWords area startAddr points).Calls (Call.Of .mc) := by
  unfold readWords
  refine Prog.Calls.bind (Prog.Calls.mapM _ fun i _ => ?_) fun _ => trivial
  exact Call.calls_perform rfl

theorem calls_readBits : (readBits area startAddr points).Calls (Call.Of .mc) := by
  unfold readBits
  refine Prog.Calls.bind (Prog.Calls.mapM _ fun i _ => ?_) fun _ => trivial
  exact Call.calls_perform rfl

theorem calls_writeWords : (writeWords area startAddr points request).Calls (Call.Of .mc) :=
  Prog.Calls.forM _ fun _ _ => Call.calls_perform rfl

theorem calls_writeBits : (writeBits area startAddr points request).Calls (Call.Of .mc) :=
  Prog.Calls.forM _ fun _ _ => Call.calls_perform rfl

theorem calls_processRequest : (processRequest request).Calls (Call.Of .mc) := by
  unfold processRequest
  refine .ite trivial (.ite (.ite (.ite trivial ?_) (.ite (.ite trivial ?_) trivial))
    (.ite (.ite (.ite trivial (.ite trivial ?_))
      (.ite (.ite trivial (.ite trivial ?_)) trivial)) trivial))
  · exact (calls_readWords _ _ _).bind fun _ => trivial
  · exact (calls_readBits _ _ _).bind fun _ => trivial
  · exact (calls_writeWords _ _ _ _).bind fun _ => trivial
  · exact (calls_writeBits _ _ _ _).bind fun _ => trivial

end Calls

/-! ## One point -/

section Atomic

variable {I : PlcMemory → Prop}

theorem atomic_readWords (area : String) (startAddr : UInt32) {points : Nat} (h : points ≤ 1) :
    Threads.Atomic Call.exec I (readWords area startAddr points) := by
  have hloop : Threads.Atomic Call.exec I ((List.range points).mapM fun i =>
      (Call.readMCWord area (pointIndex startAddr i)).perform) :=
    .mapM h fun _ => Call.atomic_perform _
  exact hloop.map _

theorem atomic_readBits (area : String) (startAddr : UInt32) {points : Nat} (h : points ≤ 1) :
    Threads.Atomic Call.exec I (readBits area startAddr points) := by
  have hloop : Threads.Atomic Call.exec I ((List.range points).mapM fun i =>
      (Call.readMCBit area (pointIndex startAddr i)).perform) :=
    .mapM h fun _ => Call.atomic_perform _
  exact hloop.map _

theorem atomic_processRequest {request : List UInt8} (h : (le16 request 19).toNat ≤ 1) :
    Threads.Atomic Call.exec I (processRequest request) := by
  have hreply {ρ : Type} {p : Prog Call Call.Ret ρ} (hp : Threads.Atomic Call.exec I p)
      (f : ρ → List UInt8) : Threads.Atomic Call.exec I (p.bind fun r => .ret (f r)) := hp.map f
  unfold processRequest
  refine .ite (fun _ => .ret _) fun _ => .ite (fun _ => ?_) fun _ => .ite (fun _ => ?_)
    fun _ => .ret _
  · refine .ite (fun _ => .ite (fun _ => .ret _) fun _ => hreply ?_ _) fun _ =>
      .ite (fun _ => .ite (fun _ => .ret _) fun _ => hreply ?_ _) fun _ => .ret _
    · exact atomic_readWords _ _ h
    · exact atomic_readBits _ _ h
  · refine .ite (fun _ => .ite (fun _ => .ret _) fun _ => .ite (fun _ => .ret _) fun _ =>
        hreply ?_ _) fun _ =>
      .ite (fun _ => .ite (fun _ => .ret _) fun _ => .ite (fun _ => .ret _) fun _ =>
        hreply ?_ _) fun _ => .ret _
    · exact Threads.Atomic.forM h fun _ => Call.atomic_perform _
    · exact Threads.Atomic.forM h fun _ => Call.atomic_perform _

end Atomic

end McServer.Calls

end VPlc
