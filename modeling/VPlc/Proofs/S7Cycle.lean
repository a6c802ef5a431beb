import VPlc.Loop.Fold
import VPlc.S7.Server

/-!
# One turn of the S7 sync

What a turn of the sync loop does to word `i` of a data block depends on six
bytes, two each in the buffer, the shadow and the store. `slot` is those six,
`detectTurn` what detection does to them, and the loop does it to every slot
(`slot_detectWrites`), because turn `i` touches slot `i` only. Publishing is a
loop of the same kind over bytes, and over bits for the inputs and outputs.

Put together: a turn moves the words clients changed into the store and leaves
buffer, shadow and store equal. A second turn finds nothing to do.
-/

namespace VPlc

namespace Block

theorem read_eq (m : PlcMemory) (B : Block) (i : UInt16) :
    B.read m i = m.get B.area i.toNat := by
  cases B <;> rfl

theorem write_eq (m : PlcMemory) (B : Block) (i v : UInt16) :
    B.write m i v = m.set B.area i.toNat v := by
  cases B <;> rfl

theorem size_area (m : PlcMemory) (B : Block) : m.size B.area = 1024 := by
  cases B <;> rfl

theorem norm_area (B : Block) (v : UInt16) : B.area.norm v = v := by
  cases B <;> rfl

end Block

namespace S7Server

/-! ## Words and bits of a buffer -/

/-- Bytes `2 * i` and `2 * i + 1`. -/
def pair (xs : Vector UInt8 2048) (i : Nat) : UInt8 × UInt8 :=
  (xs.getD (i * 2) 0, xs.getD (i * 2 + 1) 0)

/-- Bit `i % 8` of byte `i / 8`. -/
def bitAt (xs : Vector UInt8 256) (i : Nat) : Bool :=
  Bytes.bit (xs.getD (i / 8) 0) (i % 8)

theorem pair_putPair (xs : Vector UInt8 2048) {i : Nat} (hi : i < 1024) (j : Nat)
    (h l : UInt8) :
    pair (putPair xs (i * 2) h l) j = if j = i then (h, l) else pair xs j := by
  simp only [pair, putPair, PlcMemory.vector_getD_setIfInBounds]
  by_cases hj : j = i
  · subst hj
    rw [if_neg (by omega), if_pos (by omega), if_pos (by omega), if_pos rfl]
  · rw [if_neg (by omega), if_neg (by omega), if_neg (by omega),
      if_neg (by omega), if_neg hj]

theorem vector_ext_getD {n : Nat} {xs ys : Vector UInt8 n}
    (h : ∀ i, i < n → xs.getD i 0 = ys.getD i 0) : xs = ys := by
  refine Vector.ext fun i hi => ?_
  have hget := h i hi
  simpa [Vector.getD, hi] using hget

theorem ext_pair {xs ys : Vector UInt8 2048}
    (h : ∀ i, i < 1024 → pair xs i = pair ys i) : xs = ys := by
  refine vector_ext_getD fun i hi => ?_
  have hpair := Prod.mk.inj (h (i / 2) (by omega))
  rcases Nat.mod_two_eq_zero_or_one i with hmod | hmod
  · rw [show i = i / 2 * 2 by omega]
    exact hpair.1
  · rw [show i = i / 2 * 2 + 1 by omega]
    exact hpair.2

theorem ext_bitAt {xs ys : Vector UInt8 256}
    (h : ∀ i, i < 2048 → bitAt xs i = bitAt ys i) : xs = ys := by
  refine vector_ext_getD fun i hi => Bytes.ext_bits fun k hk => ?_
  have hbit := h (i * 8 + k) (by omega)
  simp only [bitAt] at hbit
  rwa [show (i * 8 + k) / 8 = i by omega, show (i * 8 + k) % 8 = k by omega] at hbit

/-! ## Detection -/

/-- Word `i` of a block: in the store, in the buffer, in the shadow. -/
def slot (B : Block) (i : Nat) (p : PlcMemory × DataBlock) :
    UInt16 × (UInt8 × UInt8) × (UInt8 × UInt8) :=
  (p.1.get B.area i, pair p.2.buffer i, pair p.2.shadow i)

/-- A changed word goes to the store and into the shadow. -/
def detectTurn (x : UInt16 × (UInt8 × UInt8) × (UInt8 × UInt8)) :
    UInt16 × (UInt8 × UInt8) × (UInt8 × UInt8) :=
  if x.2.1 ≠ x.2.2 then (Bytes.join x.2.1, x.2.1, x.2.1) else x

theorem detectTurn_of_ne {x : UInt16 × (UInt8 × UInt8) × (UInt8 × UInt8)}
    (h : x.2.1 ≠ x.2.2) : detectTurn x = (Bytes.join x.2.1, x.2.1, x.2.1) :=
  if_pos h

theorem detectTurn_of_eq {x : UInt16 × (UInt8 × UInt8) × (UInt8 × UInt8)}
    (h : ¬ x.2.1 ≠ x.2.2) : detectTurn x = x := if_neg h

variable (B : Block) {write : PlcMemory → UInt16 → UInt16 → PlcMemory}

/-- The body of the detection loop, as a test on pairs. -/
theorem detectWord_eq (hw : write = B.write) (p : PlcMemory × DataBlock) {i : Nat} (hi : i < 1024) :
    detectWord write p i =
      if pair p.2.buffer i ≠ pair p.2.shadow i then
        (p.1.set B.area i (Bytes.join (pair p.2.buffer i)),
          { p.2 with shadow := putPair p.2.shadow (i * 2) (pair p.2.buffer i).1
                                 (pair p.2.buffer i).2 })
      else p := by
  have hnat : (UInt16.ofNat i).toNat = i :=
    UInt16.toNat_ofNat_of_lt' (hi.trans (by decide))
  simp only [detectWord, hw, pair, Bytes.join, Block.write_eq, hnat, Ne,
    Prod.mk.injEq, not_and_or]

theorem slot_detectWord (hw : write = B.write) (p : PlcMemory × DataBlock)
    {i : Nat} (hi : i < 1024) (j : Nat) :
    slot B j (detectWord write p i) =
      if j = i then detectTurn (slot B j p) else slot B j p := by
  rw [detectWord_eq B hw p hi]
  by_cases hj : j = i
  · subst hj
    rw [if_pos rfl]
    split
    · next hne =>
        rw [detectTurn_of_ne (x := slot B j p) hne]
        simp only [slot]
        rw [PlcMemory.get_set, if_pos ⟨rfl, rfl, by rwa [B.size_area]⟩,
          B.norm_area, pair_putPair _ hi, if_pos rfl]
    · next heq => exact (detectTurn_of_eq (x := slot B j p) heq).symm
  · rw [if_neg hj]
    split
    · simp only [slot]
      rw [PlcMemory.get_set, if_neg (fun h => hj h.2.1.symm), pair_putPair _ hi,
        if_neg hj]
    · rfl

theorem slot_detectWrites (hw : write = B.write) (m : PlcMemory)
    (db : DataBlock) {i : Nat} (hi : i < 1024) :
    slot B i (detectWrites write m db) = detectTurn (slot B i (m, db)) := by
  have h := Loop.foldl_range_local (g := slot B) (f := detectWord write)
    (t := fun _ => detectTurn) 1024 ?_ ?_ i (m, db)
  · rw [if_pos hi] at h
    rw [detectWrites, h]
  · intro p j hj
    rw [slot_detectWord B hw p hj, if_pos rfl]
  · intro p j k hj hk
    rw [slot_detectWord B hw p hj, if_neg hk]

theorem detectWrites_frame (hw : write = B.write) (m : PlcMemory)
    (db : DataBlock) :
    (detectWrites write m db).2.buffer = db.buffer ∧
      ∀ a i, a ≠ B.area → (detectWrites write m db).1.get a i = m.get a i := by
  rw [detectWrites]
  refine ⟨?_, ?_⟩
  · refine Loop.foldl_keeps (g := fun p : PlcMemory × DataBlock => p.2.buffer)
      (fun p i hi => ?_) (m, db)
    rw [detectWord_eq B hw p (List.mem_range.mp hi)]
    split <;> rfl
  · intro a j ha
    refine Loop.foldl_keeps (g := fun p : PlcMemory × DataBlock => p.1.get a j)
      (fun p i hi => ?_) (m, db)
    rw [detectWord_eq B hw p (List.mem_range.mp hi)]
    split
    · exact PlcMemory.get_set_area (Ne.symm ha) p.1 i j _
    · rfl

theorem detectWrites_of_eq (hw : write = B.write) {m : PlcMemory}
    {db : DataBlock} (h : db.buffer = db.shadow) :
    detectWrites write m db = (m, db) := by
  refine Loop.foldl_fixed fun i hi => ?_
  rw [detectWord_eq B hw (m, db) (List.mem_range.mp hi), if_neg]
  rw [h]
  exact not_not.mpr rfl

/-! ## Publishing -/

theorem pair_publishWords (read : UInt16 → UInt16) (db : DataBlock) {i : Nat}
    (hi : i < 1024) :
    pair (publishWords read db).buffer i = Bytes.split (read (UInt16.ofNat i)) ∧
      pair (publishWords read db).shadow i =
        Bytes.split (read (UInt16.ofNat i)) := by
  have h := Loop.foldl_range_local (f := publishWord read)
    (g := fun j db => (pair db.buffer j, pair db.shadow j))
    (t := fun j _ => (Bytes.split (read (UInt16.ofNat j)),
      Bytes.split (read (UInt16.ofNat j)))) 1024 ?_ ?_ i db
  · rw [if_pos hi] at h
    rw [publishWords]
    exact Prod.mk.inj h
  · intro db j hj
    simp only [publishWord, pair_putPair _ hj, if_true]
    rfl
  · intro db j k hj hk
    simp only [publishWord, pair_putPair _ hj, if_neg hk]

theorem bitAt_publishBits (read : UInt16 → Bool) (buf : Vector UInt8 256)
    {i : Nat} (hi : i < 2048) :
    bitAt (publishBits read buf) i = read (UInt16.ofNat i) := by
  have hbit : ∀ (buf : Vector UInt8 256) (j k : Nat), j < 2048 →
      bitAt (publishBit read buf j) k =
        if k = j then read (UInt16.ofNat j) else bitAt buf k := by
    intro buf j k hj
    simp only [bitAt, publishBit, PlcMemory.vector_getD_setIfInBounds]
    by_cases hbyte : j / 8 = k / 8
    · rw [if_pos ⟨hbyte, by omega⟩, Bytes.bit_putBit _ (by omega) (by omega), hbyte]
      refine if_congr ?_ rfl rfl
      omega
    · rw [if_neg (fun h => hbyte h.1), if_neg (by omega)]
  have h := Loop.foldl_range_local (f := publishBit read)
    (g := fun j buf => bitAt buf j) (t := fun j _ => read (UInt16.ofNat j)) 2048
    ?_ ?_ i buf
  · rw [if_pos hi] at h
    rw [publishBits, h]
  · intro buf j hj
    rw [hbit buf j j hj, if_pos rfl]
  · intro buf j k hj hk
    rw [hbit buf j k hj, if_neg hk]

/-! ## The two calls -/

section Cycle

variable {m : PlcMemory} {s : S7Server}

theorem Block.write_db1 : PlcMemory.writeS7DB1 = Block.db1.write := rfl
theorem Block.write_db2 : PlcMemory.writeS7DB2 = Block.db2.write := rfl

/-- What the calls leave, with the loops' results as variables: the loops run a
thousand turns, and no one should be tempted to unfold them. -/
theorem syncBeforeCycle_spec (h : s.isRunning = true) :
    ∃ p₁ p₂, p₁ = detectWrites PlcMemory.writeS7DB1 m s.db1 ∧
      p₂ = detectWrites PlcMemory.writeS7DB2 p₁.1 s.db2 ∧
      syncBeforeCycle m s = (p₂.1, { s with db1 := p₁.2, db2 := p₂.2 }) := by
  refine ⟨_, _, rfl, rfl, ?_⟩
  simp only [syncBeforeCycle, h, Bool.not_true, Bool.false_eq_true, if_false]

theorem syncAfterCycle_spec (h : s.isRunning = true) :
    ∃ pe pa d₁ d₂, pe = publishBits m.readS7PE s.peBuffer ∧
      pa = publishBits m.readS7PA s.paBuffer ∧
      d₁ = publishWords m.readS7DB1 s.db1 ∧
      d₂ = publishWords m.readS7DB2 s.db2 ∧
      syncAfterCycle m s =
        { s with peBuffer := pe, paBuffer := pa, db1 := d₁, db2 := d₂ } := by
  refine ⟨_, _, _, _, rfl, rfl, rfl, rfl, ?_⟩
  simp only [syncAfterCycle, h, Bool.not_true, Bool.false_eq_true, if_false]

theorem isRunning_syncBeforeCycle (h : s.isRunning = true) :
    (syncBeforeCycle m s).2.isRunning = true := by
  obtain ⟨p₁, p₂, -, -, heq⟩ := syncBeforeCycle_spec (m := m) h
  rw [heq]
  exact h

theorem isRunning_syncAfterCycle (h : s.isRunning = true) :
    (syncAfterCycle m s).isRunning = true := by
  obtain ⟨pe, pa, d₁, d₂, -, -, -, -, heq⟩ := syncAfterCycle_spec (m := m) h
  rw [heq]
  exact h

/-- Detection treats the blocks independently of each other. -/
theorem slot_syncBeforeCycle (h : s.isRunning = true) (B : Block) {i : Nat}
    (hi : i < 1024) :
    slot B i ((syncBeforeCycle m s).1, B.data (syncBeforeCycle m s).2) =
      detectTurn (slot B i (m, B.data s)) := by
  obtain ⟨p₁, p₂, hp₁, hp₂, heq⟩ := syncBeforeCycle_spec (m := m) h
  rw [heq]
  cases B with
  | db1 =>
      have hturn := slot_detectWrites .db1 Block.write_db1 m s.db1 hi
      have hword := (detectWrites_frame .db2 Block.write_db2 p₁.1 s.db2).2 .s7Db1 i
        (by decide)
      rw [← hp₁] at hturn
      rw [← hp₂] at hword
      refine Eq.trans ?_ hturn
      exact congrArg (fun w => (w, _)) hword
  | db2 =>
      have hturn := slot_detectWrites .db2 Block.write_db2 p₁.1 s.db2 hi
      have hword := (detectWrites_frame .db1 Block.write_db1 m s.db1).2 .s7Db2 i
        (by decide)
      rw [← hp₂] at hturn
      rw [← hp₁] at hword
      refine hturn.trans (congrArg detectTurn ?_)
      exact congrArg (fun w => (w, _)) hword

theorem syncBeforeCycle_frame (h : s.isRunning = true) {a : Area}
    (h1 : a ≠ .s7Db1) (h2 : a ≠ .s7Db2) (i : Nat) :
    (syncBeforeCycle m s).1.get a i = m.get a i := by
  obtain ⟨p₁, p₂, hp₁, hp₂, heq⟩ := syncBeforeCycle_spec (m := m) h
  have hword1 := (detectWrites_frame .db1 Block.write_db1 m s.db1).2 a i h1
  have hword2 := (detectWrites_frame .db2 Block.write_db2 p₁.1 s.db2).2 a i h2
  rw [← hp₁] at hword1
  rw [← hp₂] at hword2
  rw [heq]
  exact hword2.trans hword1

theorem syncBeforeCycle_of_eq (h : ∀ B : Block, (B.data s).buffer = (B.data s).shadow) :
    syncBeforeCycle m s = (m, s) := by
  cases hrun : s.isRunning with
  | false => simp [syncBeforeCycle, hrun]
  | true =>
      obtain ⟨p₁, p₂, hp₁, hp₂, heq⟩ := syncBeforeCycle_spec (m := m) hrun
      have h1 : s.db1.buffer = s.db1.shadow := h .db1
      have h2 : s.db2.buffer = s.db2.shadow := h .db2
      rw [detectWrites_of_eq .db1 Block.write_db1 h1] at hp₁
      rw [hp₁, detectWrites_of_eq .db2 Block.write_db2 h2] at hp₂
      rw [heq, hp₁, hp₂]

theorem pair_syncAfterCycle (h : s.isRunning = true) (B : Block) {i : Nat}
    (hi : i < 1024) :
    pair (B.data (syncAfterCycle m s)).buffer i =
        Bytes.split (B.read m (UInt16.ofNat i)) ∧
      pair (B.data (syncAfterCycle m s)).shadow i =
        Bytes.split (B.read m (UInt16.ofNat i)) := by
  obtain ⟨pe, pa, d₁, d₂, -, -, hd₁, hd₂, heq⟩ := syncAfterCycle_spec (m := m) h
  have h1 := pair_publishWords m.readS7DB1 s.db1 hi
  have h2 := pair_publishWords m.readS7DB2 s.db2 hi
  rw [← hd₁] at h1
  rw [← hd₂] at h2
  rw [heq]
  cases B with
  | db1 => exact h1
  | db2 => exact h2

theorem bitAt_syncAfterCycle (h : s.isRunning = true) {i : Nat}
    (hi : i < 2048) :
    bitAt (syncAfterCycle m s).peBuffer i = m.readS7PE (UInt16.ofNat i) ∧
      bitAt (syncAfterCycle m s).paBuffer i = m.readS7PA (UInt16.ofNat i) := by
  obtain ⟨pe, pa, d₁, d₂, hpe, hpa, -, -, heq⟩ := syncAfterCycle_spec (m := m) h
  have hbit := bitAt_publishBits m.readS7PE s.peBuffer hi
  have hbit' := bitAt_publishBits m.readS7PA s.paBuffer hi
  rw [← hpe] at hbit
  rw [← hpa] at hbit'
  rw [heq]
  exact ⟨hbit, hbit'⟩

theorem data_ext {s s' : S7Server} (hrun : s.isRunning = s'.isRunning)
    (hpe : s.peBuffer = s'.peBuffer) (hpa : s.paBuffer = s'.paBuffer)
    (hdata : ∀ B : Block, B.data s = B.data s') : s = s' := by
  have h1 := hdata .db1
  have h2 := hdata .db2
  cases s
  cases s'
  simp only [Block.data] at hrun hpe hpa h1 h2
  subst hrun hpe hpa h1 h2
  rfl

/-- Publishing twice is publishing once. -/
theorem syncAfterCycle_idem (h : s.isRunning = true) :
    syncAfterCycle m (syncAfterCycle m s) = syncAfterCycle m s := by
  have hrun := isRunning_syncAfterCycle (m := m) h
  refine data_ext ?_ ?_ ?_ ?_
  · rw [isRunning_syncAfterCycle hrun, hrun]
  · refine ext_bitAt fun i hi => ?_
    rw [(bitAt_syncAfterCycle hrun hi).1, (bitAt_syncAfterCycle h hi).1]
  · refine ext_bitAt fun i hi => ?_
    rw [(bitAt_syncAfterCycle hrun hi).2, (bitAt_syncAfterCycle h hi).2]
  · intro B
    have hbuf : (B.data (syncAfterCycle m (syncAfterCycle m s))).buffer =
        (B.data (syncAfterCycle m s)).buffer := by
      refine ext_pair fun i hi => ?_
      rw [(pair_syncAfterCycle hrun B hi).1, (pair_syncAfterCycle h B hi).1]
    have hshad : (B.data (syncAfterCycle m (syncAfterCycle m s))).shadow =
        (B.data (syncAfterCycle m s)).shadow := by
      refine ext_pair fun i hi => ?_
      rw [(pair_syncAfterCycle hrun B hi).2, (pair_syncAfterCycle h B hi).2]
    cases hB : B.data (syncAfterCycle m (syncAfterCycle m s))
    cases hB' : B.data (syncAfterCycle m s)
    rw [hB, hB'] at hbuf hshad
    simp only at hbuf hshad
    rw [hbuf, hshad]

theorem buffer_eq_shadow (h : s.isRunning = true) (B : Block) :
    (B.data (syncAfterCycle m s)).buffer = (B.data (syncAfterCycle m s)).shadow := by
  refine ext_pair fun i hi => ?_
  rw [(pair_syncAfterCycle h B hi).1, (pair_syncAfterCycle h B hi).2]

end Cycle

end S7Server

open S7Server

/-- The two-way merge. One turn of the sync, server running, on any buffers,
shadows and store: every word a client changed is in the store, big-endian, and
every other word of the data blocks keeps its value; buffer and shadow of every
word are the store's value; the input and output buffers show the store's bits;
no other cell changes; and a second turn changes nothing. -/
theorem syncCycle_merges {m : PlcMemory} {s : S7Server}
    (h : s.isRunning = true) :
    (∀ (B : Block) (i : Nat), i < 1024 →
      B.read (syncCycle (m, s)).1 (UInt16.ofNat i) =
        if pair (B.data s).buffer i ≠ pair (B.data s).shadow i then
          Bytes.join (pair (B.data s).buffer i)
        else B.read m (UInt16.ofNat i)) ∧
    (∀ (B : Block) (i : Nat), i < 1024 →
      pair (B.data (syncCycle (m, s)).2).buffer i =
          Bytes.split (B.read (syncCycle (m, s)).1 (UInt16.ofNat i)) ∧
        pair (B.data (syncCycle (m, s)).2).shadow i =
          Bytes.split (B.read (syncCycle (m, s)).1 (UInt16.ofNat i))) ∧
    (∀ i, i < 2048 →
      bitAt (syncCycle (m, s)).2.peBuffer i =
          (syncCycle (m, s)).1.readS7PE (UInt16.ofNat i) ∧
        bitAt (syncCycle (m, s)).2.paBuffer i =
          (syncCycle (m, s)).1.readS7PA (UInt16.ofNat i)) ∧
    (∀ a i, a ≠ .s7Db1 → a ≠ .s7Db2 →
      (syncCycle (m, s)).1.get a i = m.get a i) ∧
    syncCycle (syncCycle (m, s)) = syncCycle (m, s) := by
  have hrun := isRunning_syncBeforeCycle (m := m) h
  have hcycle : syncCycle (m, s) = ((syncBeforeCycle m s).1,
      syncAfterCycle (syncBeforeCycle m s).1 (syncBeforeCycle m s).2) := by
    rw [syncCycle]
  rw [hcycle]
  refine ⟨?_, ?_, ?_, ?_, ?_⟩
  · intro B i hi
    have hnat : (UInt16.ofNat i).toNat = i :=
      UInt16.toNat_ofNat_of_lt' (hi.trans (by decide))
    have hword := congrArg Prod.fst (slot_syncBeforeCycle (m := m) h B hi)
    rw [B.read_eq, B.read_eq, hnat]
    refine hword.trans ?_
    split
    · next hne => rw [detectTurn_of_ne (x := slot B i (m, B.data s)) hne]; rfl
    · next heq => rw [detectTurn_of_eq (x := slot B i (m, B.data s)) heq]; rfl
  · exact fun B i hi => pair_syncAfterCycle hrun B hi
  · exact fun i hi => bitAt_syncAfterCycle hrun hi
  · exact fun a i h1 h2 => syncBeforeCycle_frame h h1 h2 i
  · simp only [syncCycle]
    rw [syncBeforeCycle_of_eq (buffer_eq_shadow hrun), syncAfterCycle_idem hrun]

/-! ## A client's word -/

/-- A running server; a client has written `01 02` at the start of data block
one. -/
def clientWrote : S7Server :=
  { S7Server.new with
    isRunning := true
    db1 := ⟨putPair S7Server.new.db1.buffer (0 * 2) 1 2, S7Server.new.db1.shadow⟩ }

theorem clientWrote_pairs :
    pair (Block.db1.data clientWrote).buffer 0 = (1, 2) ∧
      pair (Block.db1.data clientWrote).shadow 0 = (0, 0) := by
  refine ⟨?_, ?_⟩
  · show pair (putPair S7Server.new.db1.buffer (0 * 2) 1 2) 0 = (1, 2)
    rw [pair_putPair _ (by decide), if_pos rfl]
  · simp [pair, Block.data, clientWrote, S7Server.new, Vector.getD]

/-- It reaches the store as one word, and the next turn has nothing to do. -/
theorem syncCycle_merges_clientWrote :
    Block.db1.read (syncCycle (PlcMemory.default, clientWrote)).1 0 = 0x0102 ∧
      syncCycle (syncCycle (PlcMemory.default, clientWrote)) =
        syncCycle (PlcMemory.default, clientWrote) := by
  obtain ⟨hread, -, -, -, htwice⟩ := syncCycle_merges (m := PlcMemory.default)
    (s := clientWrote) rfl
  have hword := hread .db1 0 (by decide)
  rw [clientWrote_pairs.1, clientWrote_pairs.2] at hword
  exact ⟨hword.trans (by decide), htwice⟩

end VPlc
