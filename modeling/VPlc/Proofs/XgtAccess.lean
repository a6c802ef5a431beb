import VPlc.Proofs.XgtWalk
import VPlc.Xgt.Access

/-!
# Where the XGT server looks past a request

Every length the server takes from a request it checks before it goes on by it,
and with these checks three of the four kinds of request stay inside
(`executeRun_returns`, `readBlocks_returns`). In the fourth the check and the
access do not match: a written block is checked for the data it declares, and
then one byte is read for a bit and two for a word. A block that declares fewer
is harmless as long as something follows it. If it ends the request, the server
reads on behind it (`xgt_reads_inside_iff`).
-/

namespace VPlc

open Bytes (leBytes le16 Logged)
open Bytes.Logged (Returns)

namespace XgtServer

/-- A row of at most so many blocks, of which one, the last, declares fewer bytes
than its value has, and has no others. -/
inductive CutShort : Nat → List UInt8 → Prop
  | here {b : Nat} {name rest : List UInt8} {len : UInt16} {addr : LsAddress} :
      name.length < 65536 → resolveAddress name = some addr →
      (writeDataLen len).toNat ≤ rest.length → rest.length < addr.size.toNat →
      CutShort (b + 1) (nameBytes name ++ (leBytes len ++ rest))
  | later {b : Nat} {w : WriteBlock} {rest : List UInt8} :
      w.Fits → (resolveAddress w.name).isSome = true → CutShort b rest →
      CutShort (b + 1) (w.bytes ++ rest)

/-- An individual write whose blocks are cut short. -/
structure Overread (request : List UInt8) : Prop where
  whole : 30 ≤ request.length
  command : le16 request 20 = 0x0058
  dataType : le16 request 22 ≠ 0x0014
  cut : CutShort (le16 request 26).toNat (request.drop 28)

section Inside

variable (beyond : Nat → UInt8) {request : List UInt8} {m : PlcMemory}

/-! ## Reads and runs -/

theorem readBlocks_returns (b offset : Nat) (respData : List UInt8) :
    (Watched.readBlocks beyond request m b offset respData).Returns
      (readBlocks request m b offset respData) := by
  induction b generalizing offset respData with
  | zero => exact .pure _
  | succ b ih =>
      rw [Watched.readBlocks, readBlocks]
      refine .ite (fun _ => .pure _) fun hlen => .bind (.loadLe16 beyond (by omega)) ?_
      refine .ite (fun _ => .pure _) fun hname => .bind (.loadSlice beyond (by omega)) ?_
      cases resolveAddress
          ((request.drop (offset + 2)).take (le16 request offset).toNat) with
      | none => exact .pure _
      | some addr => exact ih _ _

theorem readRun_returns (varLen : Nat) (addr? : Option LsAddress) :
    (Watched.readRun beyond request m varLen addr?).Returns (readRun request m varLen addr?) := by
  unfold Watched.readRun readRun
  refine .ite (fun _ => .pure _) fun hlen => ?_
  cases addr? with
  | none => exact .pure _
  | some addr => exact .bind (.loadLe16 beyond (by omega)) (.pure _)

theorem writeRun_returns (varLen : Nat) (addr? : Option LsAddress) :
    (Watched.writeRun beyond request m varLen addr?).Returns
      (writeRun request m varLen addr?) := by
  unfold Watched.writeRun writeRun
  refine .ite (fun _ => .pure _) fun hlen => .bind (.loadLe16 beyond (by omega)) ?_
  refine .ite (fun _ => .pure _) fun hdata => ?_
  cases addr? with
  | none => exact .pure _
  | some addr =>
      refine .bind (.foldl (fun m i hi => ?_) m) (.pure _)
      have hi := List.mem_range.mp hi
      exact .bind (.loadLe16 beyond (by omega)) (.pure _)

theorem respond_returns (hlen : 30 ≤ request.length) (respData : List UInt8)
    (status : UInt16) :
    (Watched.respond beyond request (le16 request 20) (le16 request 22)
      (if le16 request 22 = 0x0014 then 1 else le16 request 26) respData status).Returns
      (respond request respData status) := by
  refine .bind (.loadSlice beyond (by omega)) ?_
  refine .bind (.load beyond (by omega)) (.bind (.load beyond (by omega)) ?_)
  refine .bind (.load beyond (by omega)) (.bind (.load beyond (by omega)) ?_)
  exact .bind (.load beyond (by omega)) (.pure _)

/-! ## Written blocks -/

theorem value_storeBlock (addr : LsAddress) (offset : Nat) :
    (Watched.storeBlock beyond request m addr offset).value =
      storeBlock beyond request m addr offset := by
  unfold Watched.storeBlock storeBlock
  split
  · rfl
  · rfl

theorem safe_storeBlock (addr : LsAddress) (offset : Nat) :
    (Watched.storeBlock beyond request m addr offset).Safe ↔
      offset + addr.size.toNat ≤ request.length := by
  unfold Watched.storeBlock LsAddress.size
  split
  · rw [Bytes.Logged.safe_bind, Bytes.Logged.safe_load]
    exact and_iff_left (Bytes.Logged.safe_pure _)
  · rw [Bytes.Logged.safe_bind, Bytes.Logged.safe_loadLe16]
    exact and_iff_left (Bytes.Logged.safe_pure _)

theorem value_writeBlocks (b offset : Nat) (m : PlcMemory) :
    (Watched.writeBlocks beyond request b offset m).value =
      writeBlocks beyond request b offset m := by
  induction b generalizing offset m with
  | zero => rfl
  | succ b ih =>
      rw [Watched.writeBlocks, writeBlocks]
      by_cases hlen : request.length < offset + 2
      · rw [if_pos hlen, if_pos hlen]
        rfl
      rw [if_neg hlen, if_neg hlen, (Returns.loadLe16 beyond (by omega)).bind_value]
      dsimp only
      by_cases hname : request.length < offset + 2 + (le16 request offset).toNat
      · rw [if_pos hname, if_pos hname]
        rfl
      rw [if_neg hname, if_neg hname, (Returns.loadSlice beyond (by omega)).bind_value]
      cases resolveAddress
          ((request.drop (offset + 2)).take (le16 request offset).toNat) with
      | none => rfl
      | some addr =>
          dsimp only
          split
          · rfl
          next hdataLen =>
          rw [(Returns.loadLe16 beyond (by omega)).bind_value]
          split
          · rfl
          · rw [Bytes.Logged.value_bind, value_storeBlock, ih]

/-- The next block of a write, with what follows its length fields. -/
structure BlockAt (request : List UInt8) (offset : Nat) (name rest : List UInt8)
    (len : UInt16) (addr : LsAddress) : Prop where
  fits : name.length < 65536
  resolves : resolveAddress name = some addr
  declared : (writeDataLen len).toNat ≤ rest.length
  body : request.drop offset = nameBytes name ++ (leBytes len ++ rest)

theorem BlockAt.length {offset : Nat} {name rest : List UInt8} {len : UInt16}
    {addr : LsAddress} (h : BlockAt request offset name rest len addr) :
    request.length = offset + (2 + name.length + (2 + rest.length)) := by
  have hlen := congrArg List.length h.body
  simp only [List.length_drop, List.length_append, length_nameBytes, Bytes.length_leBytes] at hlen
  omega

theorem BlockAt.drop {offset : Nat} {name rest : List UInt8} {len : UInt16}
    {addr : LsAddress} (h : BlockAt request offset name rest len addr) (n : Nat) :
    request.drop (offset + 2 + name.length + 2 + n) = rest.drop n := by
  have hhead : (nameBytes name ++ leBytes len).length = 2 + name.length + 2 := by
    rw [List.length_append, length_nameBytes, Bytes.length_leBytes]
  have hbody := h.body
  rw [← List.append_assoc] at hbody
  rw [show offset + 2 + name.length + 2 + n = offset + ((2 + name.length + 2) + n) by omega,
    ← List.drop_drop, hbody, ← List.drop_drop, ← hhead, List.drop_left]

/-- If there is one, the server goes on to its value and behind it. -/
theorem safe_writeBlocks_next {b offset : Nat} {name rest : List UInt8} {len : UInt16}
    {addr : LsAddress} (h : BlockAt request offset name rest len addr) :
    (Watched.writeBlocks beyond request (b + 1) offset m).Safe ↔
      addr.size.toNat ≤ rest.length ∧
        (Watched.writeBlocks beyond request b
          (offset + 2 + name.length + 2 + (writeDataLen len).toNat)
          (storeBlock beyond request m addr (offset + 2 + name.length + 2))).Safe := by
  have hlength := h.length
  obtain ⟨hfits, hresolves, hdeclared, hbody⟩ := h
  have hpre : (request.take offset).length = offset := by
    rw [List.length_take]
    omega
  have hR : request = request.take offset ++ (nameBytes name ++ (leBytes len ++ rest)) := by
    rw [← hbody, List.take_append_drop]
  obtain ⟨hvarLen, htake, -⟩ := field_at hfits hR hpre
  have hlen : le16 request (offset + 2 + name.length) = len := by
    rw [hR, ← List.append_assoc]
    refine Bytes.le16_at _ _ _ ?_
    rw [List.length_append, length_nameBytes, hpre]
    omega
  rw [Watched.writeBlocks, if_neg (by omega), (Returns.loadLe16 beyond (by omega)).bind_safe]
  dsimp only
  rw [hvarLen, if_neg (by omega), (Returns.loadSlice beyond (by omega)).bind_safe, htake,
    hresolves]
  dsimp only
  rw [if_neg (by omega), (Returns.loadLe16 beyond (by omega)).bind_safe, hlen,
    if_neg (by omega), Bytes.Logged.safe_bind, safe_storeBlock, value_storeBlock]
  refine and_congr_left' ?_
  omega

/-- If there is none, it stops. -/
theorem safe_writeBlocks_stop {b offset : Nat}
    (h : ∀ name rest len addr, ¬ BlockAt request offset name rest len addr) :
    (Watched.writeBlocks beyond request (b + 1) offset m).Safe := by
  rw [Watched.writeBlocks]
  by_cases hlen : request.length < offset + 2
  · rw [if_pos hlen]
    exact Bytes.Logged.safe_pure _
  rw [if_neg hlen, (Returns.loadLe16 beyond (by omega)).bind_safe]
  by_cases hname : request.length < offset + 2 + (le16 request offset).toNat
  · rw [if_pos hname]
    exact Bytes.Logged.safe_pure _
  rw [if_neg hname, (Returns.loadSlice beyond (by omega)).bind_safe]
  cases hresolves : resolveAddress
      ((request.drop (offset + 2)).take (le16 request offset).toNat) with
  | none => exact Bytes.Logged.safe_pure _
  | some addr =>
      dsimp only
      by_cases hdataLen : request.length < offset + 2 + (le16 request offset).toNat + 2
      · rw [if_pos hdataLen]
        exact Bytes.Logged.safe_pure _
      rw [if_neg hdataLen, (Returns.loadLe16 beyond (by omega)).bind_safe]
      by_cases hdata : request.length < offset + 2 + (le16 request offset).toNat + 2 +
          (writeDataLen (le16 request (offset + 2 + (le16 request offset).toNat))).toNat
      · rw [if_pos hdata]
        exact Bytes.Logged.safe_pure _
      exfalso
      obtain ⟨name, hlength, hfits, hdrop⟩ :=
        Drain.drop_eq_nameBytes request offset rfl (by omega)
      have hpre : (request.take offset).length = offset := by
        rw [List.length_take]
        omega
      have htake := (field_at hfits (by rw [← hdrop, List.take_append_drop]) hpre).2.1
      have hrest := Bytes.drop_eq_field request 0 (i := offset + 2 + (le16 request offset).toNat)
        (by omega)
      rw [List.take_zero, List.nil_append, Nat.add_zero] at hrest
      rw [← hlength, htake] at hresolves
      rw [hrest] at hdrop
      refine h name _ _ addr ⟨hfits, hresolves, ?_, hdrop⟩
      rw [List.length_drop]
      omega

/-- Up to the block that is cut short, and past its end. -/
theorem CutShort.not_safe {b : Nat} {body : List UInt8} (hcut : CutShort b body)
    {offset : Nat} (hbody : request.drop offset = body) (m : PlcMemory) :
    ¬ (Watched.writeBlocks beyond request b offset m).Safe := by
  intro hsafe
  induction hcut generalizing offset m with
  | here hfits hresolves hdeclared hshort =>
      have hnext := (safe_writeBlocks_next beyond
        ⟨hfits, hresolves, hdeclared, hbody⟩).mp hsafe
      omega
  | @later b w rest hw hresolves _ ih =>
      obtain ⟨addr, haddr⟩ := Option.isSome_iff_exists.mp hresolves
      rw [WriteBlock.bytes, List.append_assoc, List.append_assoc] at hbody
      have hblock : BlockAt request offset w.name (w.data ++ rest) w.len addr :=
        ⟨hw.name, haddr, by rw [List.length_append, hw.data]; omega, hbody⟩
      refine ih ?_ _ ((safe_writeBlocks_next beyond hblock).mp hsafe).2
      rw [← hw.data, hblock.drop, List.drop_left]

theorem BlockAt.cutShort {b offset : Nat} {name rest : List UInt8} {len : UInt16}
    {addr : LsAddress} (h : BlockAt request offset name rest len addr)
    (hcut : rest.length < addr.size.toNat ∨
      CutShort b (request.drop (offset + 2 + name.length + 2 + (writeDataLen len).toNat))) :
    CutShort (b + 1) (request.drop offset) := by
  rcases hcut with hshort | hlater
  · rw [h.body]
    exact .here h.fits h.resolves h.declared hshort
  · rw [h.drop] at hlater
    have hw : WriteBlock.Fits ⟨name, len, rest.take (writeDataLen len).toNat⟩ := by
      refine ⟨h.fits, ?_⟩
      rw [List.length_take]
      exact Nat.min_eq_left h.declared
    have hresolves : (resolveAddress name).isSome = true := by
      rw [h.resolves]
      rfl
    have hcut : CutShort (b + 1) _ := .later hw hresolves hlater
    rwa [WriteBlock.bytes, List.append_assoc, List.append_assoc, List.take_append_drop,
      ← h.body] at hcut

/-- The server stays inside a write just if it is not cut short. -/
theorem safe_writeBlocks_iff (b offset : Nat) (m : PlcMemory) :
    (Watched.writeBlocks beyond request b offset m).Safe ↔
      ¬ CutShort b (request.drop offset) := by
  refine ⟨fun hsafe hcut => hcut.not_safe beyond rfl m hsafe, fun hcut => ?_⟩
  induction b generalizing offset m with
  | zero => exact Bytes.Logged.safe_pure _
  | succ b ih =>
      by_cases h : ∀ name rest len addr, ¬ BlockAt request offset name rest len addr
      · exact safe_writeBlocks_stop beyond h
      · push Not at h
        obtain ⟨name, rest, len, addr, hblock⟩ := h
        rw [safe_writeBlocks_next beyond hblock]
        refine ⟨Nat.le_of_not_lt fun hshort => ?_, ih _ _ fun hlater => ?_⟩
        · exact hcut (hblock.cutShort (Or.inl hshort))
        · exact hcut (hblock.cutShort (Or.inr hlater))

/-! ## Requests -/

theorem executeRun_returns (hlen : 30 ≤ request.length) (hdataType : le16 request 22 = 0x0014)
    (hname : 30 + (le16 request 28).toNat ≤ request.length) :
    (Watched.executeRun beyond request m (le16 request 20) (le16 request 28).toNat
      (resolveAddress ((request.drop 30).take (le16 request 28).toNat))).Returns
      (execute beyond request m) := by
  rw [execute_run hlen hdataType rfl hname]
  refine .ite (fun _ => .bind (readRun_returns beyond _ _) (.pure _)) fun _ => ?_
  exact .ite (fun _ => .bind (writeRun_returns beyond _ _) (.pure _)) fun _ => .pure _

theorem executeBlocks_returns (hlen : 30 ≤ request.length)
    (hdataType : le16 request 22 ≠ 0x0014) (hcommand : le16 request 20 ≠ 0x0058) :
    (Watched.executeBlocks beyond request m (le16 request 20) (le16 request 26).toNat).Returns
      (execute beyond request m) := by
  rw [execute_blocks hlen hdataType]
  refine .ite (fun _ => .bind (readBlocks_returns beyond _ _ _) (.pure _)) fun _ => ?_
  exact .ite (fun hwrite => absurd hwrite hcommand) fun _ => .pure _

theorem executeBlocks_write (hlen : 30 ≤ request.length)
    (hdataType : le16 request 22 ≠ 0x0014) (hcommand : le16 request 20 = 0x0058) :
    (Watched.executeBlocks beyond request m (le16 request 20) (le16 request 26).toNat).value =
        execute beyond request m ∧
      ((Watched.executeBlocks beyond request m (le16 request 20)
          (le16 request 26).toNat).Safe ↔
        ¬ CutShort (le16 request 26).toNat (request.drop 28)) := by
  have hread : ¬ ((0x0058 : UInt16) = 0x0054) := by decide
  rw [execute_blocks hlen hdataType, Watched.executeBlocks, hcommand, if_neg hread, if_pos rfl,
    if_neg hread, if_pos rfl, Bytes.Logged.value_bind, Bytes.Logged.safe_bind,
    value_writeBlocks, safe_writeBlocks_iff]
  exact ⟨rfl, and_iff_left (Bytes.Logged.safe_pure _)⟩

/-- Putting the reply together is safe, so the execution decides. -/
theorem answered (hlen : 30 ≤ request.length)
    (hlate : (execute beyond request m).2.2 ∉ [some .request, some .name])
    {x : Logged (PlcMemory × List UInt8 × Option Fault)}
    (hx : x.value = execute beyond request m) :
    (x >>= fun r => Watched.respond beyond request (le16 request 20) (le16 request 22)
        (if le16 request 22 = 0x0014 then 1 else le16 request 26) r.2.1
        (errorStatus r.2.2) >>= fun response => pure (r.1, response)).value =
        processRequest beyond m request ∧
      ((x >>= fun r => Watched.respond beyond request (le16 request 20) (le16 request 22)
        (if le16 request 22 = 0x0014 then 1 else le16 request 26) r.2.1
        (errorStatus r.2.2) >>= fun response => pure (r.1, response)).Safe ↔ x.Safe) := by
  rw [Bytes.Logged.value_bind, Bytes.Logged.safe_bind, hx,
    (respond_returns beyond hlen _ _).bind_value, (respond_returns beyond hlen _ _).bind_safe,
    processRequest, reply_late hlate]
  exact ⟨rfl, and_iff_left (Bytes.Logged.safe_pure _)⟩

end Inside

/-- The server stays inside every request but the individual writes that are cut
short. -/
theorem xgt_reads_inside_iff (beyond : Nat → UInt8) (m : PlcMemory) (request : List UInt8) :
    (Watched.processRequest beyond m request).value = processRequest beyond m request ∧
      ((Watched.processRequest beyond m request).Safe ↔ ¬ Overread request) := by
  by_cases hlen : request.length < 30
  · rw [Watched.processRequest, if_pos hlen, processRequest, execute, if_pos hlen]
    refine ⟨rfl, iff_of_true (Bytes.Logged.safe_pure _) fun h => ?_⟩
    have := h.whole
    omega
  have hlen : 30 ≤ request.length := by omega
  have hcommand := Returns.loadLe16 beyond (i := 20) (show 20 + 1 < request.length by omega)
  have hdataType := Returns.loadLe16 beyond (i := 22) (show 22 + 1 < request.length by omega)
  rw [Watched.processRequest, if_neg (by omega), hcommand.bind_value, hcommand.bind_safe,
    hdataType.bind_value, hdataType.bind_safe]
  by_cases hrun : le16 request 22 = 0x0014
  · have hinside : ¬ Overread request := fun h => h.dataType hrun
    have hvarLen := Returns.loadLe16 beyond (i := 28) (show 28 + 1 < request.length by omega)
    rw [if_pos hrun, hvarLen.bind_value, hvarLen.bind_safe]
    by_cases hname : request.length < 30 + (le16 request 28).toNat
    · rw [if_pos hname, processRequest, execute_unnamed hlen hrun hname]
      exact ⟨rfl, iff_of_true (Bytes.Logged.safe_pure _) hinside⟩
    · have hvarName := Returns.loadSlice beyond (i := 30) (n := (le16 request 28).toNat)
        (show _ ≤ request.length by omega)
      have hexecute := @executeRun_returns beyond request m hlen hrun (by omega)
      have hanswered := answered beyond hlen (execute_late hlen fun _ => by omega)
        hexecute.value
      rw [if_pos hrun] at hanswered
      rw [if_neg hname, hvarName.bind_value, hvarName.bind_safe]
      exact ⟨hanswered.1, hanswered.2.trans (iff_of_true hexecute.safe hinside)⟩
  · have hblockCount := Returns.loadLe16 beyond (i := 26)
      (show 26 + 1 < request.length by omega)
    have hlate := @execute_late beyond request m hlen fun h => absurd h hrun
    rw [if_neg hrun, hblockCount.bind_value, hblockCount.bind_safe]
    by_cases hwrite : le16 request 20 = 0x0058
    · obtain ⟨hvalue, hsafe⟩ := @executeBlocks_write beyond request m hlen hrun hwrite
      have hanswered := answered beyond hlen hlate hvalue
      rw [if_neg hrun] at hanswered
      refine ⟨hanswered.1, hanswered.2.trans (hsafe.trans (not_congr ?_))⟩
      exact ⟨fun hcut => ⟨hlen, hwrite, hrun, hcut⟩, fun h => h.cut⟩
    · have hexecute := @executeBlocks_returns beyond request m hlen hrun hwrite
      have hanswered := answered beyond hlen hlate hexecute.value
      rw [if_neg hrun] at hanswered
      exact ⟨hanswered.1, hanswered.2.trans (iff_of_true hexecute.safe
        fun h => hwrite h.command)⟩

/-- A write of one block that ends with its data length, 0. -/
def emptyWrite : List UInt8 :=
  lsisXgt ++ [0, 0, 0, 0, 0, 0x33, 0, 0, 19, 0] ++ [0, 0, 0x58, 0, 2, 0, 0, 0, 1, 0] ++
    [5, 0, 0x25, 0x4D, 0x57, 0x31, 0x30, 0, 0]

/-- It has 37 bytes, and the server looks at number 37. -/
theorem xgt_reads_past_end :
    emptyWrite.length = 37 ∧
      (⟨37, 37⟩ : Bytes.Access) ∈
        (Watched.processRequest (fun _ => 0) PlcMemory.default emptyWrite).log ∧
      ¬ (Watched.processRequest (fun _ => 0) PlcMemory.default emptyWrite).Safe := by
  have hmem : (⟨37, 37⟩ : Bytes.Access) ∈
      (Watched.processRequest (fun _ => 0) PlcMemory.default emptyWrite).log := by decide
  exact ⟨rfl, hmem, fun hsafe => absurd (hsafe _ hmem) (by decide)⟩

end XgtServer

end VPlc
