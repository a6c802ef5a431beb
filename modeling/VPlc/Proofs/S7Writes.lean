import VPlc.Proofs.S7Cycle

/-!
# Client writes and the S7 sync

Detection compares the buffer with the shadow, and publishing overwrites both. A
client that writes between the two calls of one turn is overwritten before
anyone has looked; the shadow is overwritten with it, so no later turn finds a
difference either.

`s7_write_stored_iff` says that is the only way to lose a write. Until the next
detection nobody but clients touches buffer and shadow (`Pending`), so a write
made in the other window is found; a write made in this one can be lost in the
very next step.
-/

namespace VPlc

open S7Server

/-- The event is a client's write to word `i` of the block, or to half of it. -/
def S7Event.Overwrites (B : Block) (i : Nat) : S7Event → Prop
  | .client B' start bytes =>
      B' = B ∧ start ≤ i * 2 + 1 ∧ i * 2 < start + bytes.length
  | _ => False

namespace S7Plant

/-- Word `i` of a block's buffer, and of its shadow. -/
def bufferAt (s : S7Plant) (B : Block) (i : Nat) : UInt8 × UInt8 :=
  pair (B.data s.srv).buffer i

def shadowAt (s : S7Plant) (B : Block) (i : Nat) : UInt8 × UInt8 :=
  pair (B.data s.srv).shadow i

/-- Word `i` of a block in the store. -/
def storedAt (s : S7Plant) (B : Block) (i : Nat) : UInt16 :=
  B.read s.mem (UInt16.ofNat i)

/-- However the run goes on, as long as no client overwrites the word: by the
time the sync thread puts something else in the word's place, an earlier
detection has found it in the buffer and stored it. -/
def StoredInTime (s : S7Plant) (B : Block) (i : Nat) : Prop :=
  ∀ post, (∀ e ∈ post, ¬ e.Overwrites B i) → (s.run post).next = .after →
    (s.run (post ++ [.sync])).bufferAt B i ≠ s.bufferAt B i →
    ∃ es, es ++ [.sync] <+: post ∧ (s.run es).next = .before ∧
      (s.run es).bufferAt B i = s.bufferAt B i ∧
      (s.run (es ++ [.sync])).storedAt B i = Bytes.join (s.bufferAt B i)

theorem run_cons (s : S7Plant) (e : S7Event) (es : List S7Event) :
    s.run (e :: es) = (s.exec e).run es := rfl

theorem run_append (s : S7Plant) (es es' : List S7Event) :
    s.run (es ++ es') = (s.run es).run es' := List.foldl_append

/-! ## One event -/

section Exec

variable {s : S7Plant} {B : Block} {i : Nat} {p : UInt8 × UInt8}

theorem isRunning_exec (h : s.srv.isRunning = true) (e : S7Event) :
    (s.exec e).srv.isRunning = true := by
  cases e with
  | store B i v => exact h
  | client B start bytes => cases B <;> exact h
  | sync =>
      cases hnext : s.next with
      | before =>
          simp only [exec, hnext]
          exact isRunning_syncBeforeCycle h
      | after =>
          simp only [exec, hnext]
          exact isRunning_syncAfterCycle h

theorem isRunning_run (h : s.srv.isRunning = true) (es : List S7Event) :
    (s.run es).srv.isRunning = true := by
  induction es generalizing s with
  | nil => exact h
  | cons e es ih => exact ih (isRunning_exec h e)

theorem getD_writeBytes_of_out {xs : Vector UInt8 2048} {start j : Nat}
    {bs : List UInt8} (h : ¬ (start ≤ j ∧ j < start + bs.length)) :
    (writeBytes xs start bs).getD j 0 = xs.getD j 0 := by
  induction bs generalizing xs start with
  | nil => rfl
  | cons b bs ih =>
      rw [List.length_cons] at h
      rw [writeBytes, ih (by omega), PlcMemory.vector_getD_setIfInBounds,
        if_neg (by omega)]

theorem data_withBuffer (srv : S7Server) (B B' : Block)
    (buf : Vector UInt8 2048) :
    B.data (B'.withBuffer srv buf) =
      if B' = B then { B.data srv with buffer := buf } else B.data srv := by
  cases B <;> cases B' <;> rfl

/-- Only clients and the sync thread touch the buffers. -/
theorem exec_frame {e : S7Event} (hsync : e ≠ .sync) (he : ¬ e.Overwrites B i) :
    (s.exec e).next = s.next ∧ (s.exec e).bufferAt B i = s.bufferAt B i ∧
      (s.exec e).shadowAt B i = s.shadowAt B i := by
  cases e with
  | sync => exact absurd rfl hsync
  | store B' j v => exact ⟨rfl, rfl, rfl⟩
  | client B' start bytes =>
      refine ⟨rfl, ?_, ?_⟩
      · simp only [exec, bufferAt, data_withBuffer]
        split
        · next hB =>
            subst hB
            have hout : ∀ j, j = i * 2 ∨ j = i * 2 + 1 →
                ¬ (start ≤ j ∧ j < start + bytes.length) := by
              intro j hj hin
              exact he ⟨rfl, by omega, by omega⟩
            simp only [pair]
            rw [getD_writeBytes_of_out (hout _ (Or.inl rfl)),
              getD_writeBytes_of_out (hout _ (Or.inr rfl))]
        · rfl
      · simp only [exec, shadowAt, data_withBuffer]
        split <;> rfl

/-- A client's word is waiting to be detected. -/
structure Pending (s : S7Plant) (B : Block) (i : Nat) (p : UInt8 × UInt8) :
    Prop where
  running : s.srv.isRunning = true
  next : s.next = .before
  buffer : s.bufferAt B i = p
  changed : p ≠ s.shadowAt B i

theorem Pending.exec {e : S7Event} (h : Pending s B i p) (hsync : e ≠ .sync)
    (he : ¬ e.Overwrites B i) : Pending (s.exec e) B i p := by
  obtain ⟨hnext, hbuf, hshad⟩ := exec_frame (s := s) hsync he
  refine ⟨isRunning_exec h.running e, hnext.trans h.next, hbuf.trans h.buffer, ?_⟩
  rw [hshad]
  exact h.changed

/-- The next detection stores it. -/
theorem Pending.sync (h : Pending s B i p) (hi : i < 1024) :
    (s.exec .sync).storedAt B i = Bytes.join p := by
  have hne : pair (B.data s.srv).buffer i ≠ pair (B.data s.srv).shadow i := by
    have hbuf := h.buffer
    simp only [bufferAt] at hbuf
    rw [hbuf]
    exact h.changed
  have hslot := slot_syncBeforeCycle (m := s.mem) h.running B hi
  rw [detectTurn_of_ne (x := slot B i (s.mem, B.data s.srv)) hne] at hslot
  have hword := congrArg Prod.fst hslot
  simp only [S7Plant.exec, h.next, storedAt]
  rw [B.read_eq, UInt16.toNat_ofNat_of_lt' (hi.trans (by decide))]
  refine hword.trans ?_
  rw [← h.buffer]
  rfl

/-- So a pending word has been stored by the time the other call is due. -/
theorem Pending.run {post : List S7Event} (h : Pending s B i p) (hi : i < 1024)
    (hpost : ∀ e ∈ post, ¬ e.Overwrites B i)
    (hnext : (s.run post).next = .after) :
    ∃ es, es ++ [.sync] <+: post ∧ (s.run es).next = .before ∧
      (s.run es).bufferAt B i = p ∧
      (s.run (es ++ [.sync])).storedAt B i = Bytes.join p := by
  induction post generalizing s with
  | nil => exact absurd (h.next.symm.trans hnext) nofun
  | cons e post ih =>
      by_cases he : e = .sync
      · subst he
        exact ⟨[], ⟨post, rfl⟩, h.next, h.buffer, h.sync hi⟩
      · obtain ⟨es, hpre, hbefore, hbuf, hstored⟩ :=
          ih (h.exec he (hpost e List.mem_cons_self))
            (fun e' he' => hpost e' (List.mem_cons_of_mem _ he')) hnext
        refine ⟨e :: es, ?_, hbefore, hbuf, hstored⟩
        exact List.cons_prefix_cons.mpr ⟨rfl, hpre⟩

end Exec

/-- A changed word is stored in time exactly if detection comes first. -/
theorem storedInTime_iff {s : S7Plant} {B : Block} {i : Nat}
    (hrun : s.srv.isRunning = true) (hi : i < 1024)
    (hchanged : s.bufferAt B i ≠ s.shadowAt B i) :
    s.StoredInTime B i ↔ s.next = .before := by
  refine ⟨?_, ?_⟩
  · intro h
    cases hnext : s.next with
    | before => rfl
    | after =>
        -- Another thread stores a different value, and publishing puts it there.
        have hput : (s.run [.store B (UInt16.ofNat i)
            (Bytes.join (s.bufferAt B i) + 1), .sync]).bufferAt B i =
            Bytes.split (Bytes.join (s.bufferAt B i) + 1) := by
          simp only [run_cons, exec, hnext, bufferAt]
          refine (pair_syncAfterCycle hrun B hi).1.trans (congrArg Bytes.split ?_)
          rw [B.read_eq, B.write_eq, PlcMemory.get_set_same, if_pos, B.norm_area]
          rw [UInt16.toNat_ofNat_of_lt' (hi.trans (by decide)), B.size_area]
          exact ⟨rfl, hi⟩
        have hne : Bytes.split (Bytes.join (s.bufferAt B i) + 1) ≠
            s.bufferAt B i := by
          intro heq
          have hjoin := congrArg Bytes.join heq
          rw [Bytes.join_split] at hjoin
          have hnat := congrArg UInt16.toNat hjoin
          rw [UInt16.toNat_add] at hnat
          have hlt := (Bytes.join (s.bufferAt B i)).toNat_lt
          simp only [UInt16.reduceToNat] at hnat
          omega
        obtain ⟨es, hpre, -⟩ := h [.store B (UInt16.ofNat i)
          (Bytes.join (s.bufferAt B i) + 1)] (by simp [S7Event.Overwrites]) hnext
          (by rw [List.singleton_append, hput]; exact hne)
        have hmem := hpre.subset (List.mem_append_right _ List.mem_cons_self)
        simp at hmem
  · intro hnext post hpost hafter _
    exact Pending.run ⟨hrun, hnext, rfl, hchanged⟩ hi hpost hafter

end S7Plant

open S7Plant

/-- When an S7 client's write reaches the store. In any run with the server
running, let a client's write leave a word of a data block different from its
shadow: the word is stored in time, however the run goes on, exactly if the
sync thread's next call was `syncBeforeCycle`. -/
theorem s7_write_stored_iff {s₀ : S7Plant} (hrun : s₀.srv.isRunning = true)
    (pre : List S7Event) (B : Block) {i : Nat} (hi : i < 1024) (start : Nat)
    (bytes : List UInt8)
    (hchanged : (s₀.run (pre ++ [.client B start bytes])).bufferAt B i ≠
      (s₀.run (pre ++ [.client B start bytes])).shadowAt B i) :
    (s₀.run (pre ++ [.client B start bytes])).StoredInTime B i ↔
      (s₀.run pre).next = .before := by
  have hnext : (s₀.run (pre ++ [.client B start bytes])).next =
      (s₀.run pre).next := by
    rw [run_append]
    rfl
  rw [storedInTime_iff (isRunning_run hrun _) hi hchanged, hnext]

/-! ## A server at rest -/

/-- Everything zero, the server running. -/
def S7Plant.idle (next : SyncCall) : S7Plant :=
  ⟨PlcMemory.default, { S7Server.new with isRunning := true }, next⟩

theorem idle_sync : (S7Plant.idle .before).exec .sync = S7Plant.idle .after := by
  have hsame := syncBeforeCycle_of_eq (m := (S7Plant.idle .before).mem)
    (s := (S7Plant.idle .before).srv) (by intro B; cases B <;> rfl)
  have hnext : (S7Plant.idle .before).next = .before := rfl
  simp only [S7Plant.exec, hnext, hsame]
  rfl

theorem idle_client_pairs (next : SyncCall) :
    ((S7Plant.idle next).exec (.client .db1 0 [1, 2])).bufferAt .db1 0 = (1, 2) ∧
      ((S7Plant.idle next).exec (.client .db1 0 [1, 2])).shadowAt .db1 0 =
        (0, 0) := by
  refine ⟨?_, ?_⟩
  · simp [S7Plant.exec, bufferAt, Block.withBuffer, Block.data, writeBytes, pair,
      PlcMemory.vector_getD_setIfInBounds]
  · simp [S7Plant.exec, shadowAt, Block.withBuffer, Block.data, S7Plant.idle,
      S7Server.new, pair, Vector.getD]

theorem idle_client (next : SyncCall) :
    ((S7Plant.idle next).exec (.client .db1 0 [1, 2])).bufferAt .db1 0 ≠
      ((S7Plant.idle next).exec (.client .db1 0 [1, 2])).shadowAt .db1 0 := by
  rw [(idle_client_pairs next).1, (idle_client_pairs next).2]
  decide

/-- Written while detection is due, the word is stored. -/
theorem s7_write_stored_idle :
    ((S7Plant.idle .before).run [.client .db1 0 [1, 2]]).StoredInTime .db1 0 :=
  (s7_write_stored_iff rfl [] .db1 (by decide) 0 [1, 2]
    (idle_client .before)).mpr rfl

/-- Written after detection and before publishing, it is gone in the next step:
publishing puts the store's zero in its place. -/
theorem s7_write_lost_idle :
    ¬ ∀ (s₀ : S7Plant) (pre : List S7Event) (B : Block) (i start : Nat)
      (bytes : List UInt8), s₀.srv.isRunning = true → s₀.next = .before →
      i < 1024 →
      (s₀.run (pre ++ [.client B start bytes])).bufferAt B i ≠
        (s₀.run (pre ++ [.client B start bytes])).shadowAt B i →
      (s₀.run (pre ++ [.client B start bytes])).StoredInTime B i := by
  intro h
  have hrun : (S7Plant.idle .before).run ([.sync] ++ [.client .db1 0 [1, 2]]) =
      (S7Plant.idle .after).exec (.client .db1 0 [1, 2]) := by
    rw [run_append, run_cons (S7Plant.idle .before), idle_sync]
    rfl
  have hstored := h (S7Plant.idle .before) [.sync] .db1 0 0 [1, 2] rfl rfl
    (by decide) (by rw [hrun]; exact idle_client .after)
  rw [hrun] at hstored
  obtain ⟨hbuf, -⟩ := idle_client_pairs .after
  have hread : Block.db1.read PlcMemory.default (UInt16.ofNat 0) = 0 := by
    simp [Block.read, PlcMemory.readS7DB1, PlcMemory.default, PlcMemory.new,
      Vector.getD]
  have hput : (((S7Plant.idle .after).exec (.client .db1 0 [1, 2])).exec
      .sync).bufferAt .db1 0 = (0, 0) := by
    have hpair := (pair_syncAfterCycle (m := PlcMemory.default)
      (s := ((S7Plant.idle .after).exec (.client .db1 0 [1, 2])).srv) rfl .db1
      (i := 0) (by decide)).1
    rw [hread] at hpair
    exact hpair.trans (by decide)
  obtain ⟨es, hpre, -⟩ := hstored [] (by simp) rfl
    (by rw [hbuf]; exact fun heq => absurd (hput.symm.trans heq) (by decide))
  exact absurd (List.prefix_nil.mp hpre) (by simp)

end VPlc
