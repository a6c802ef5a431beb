import VPlc.Xgt.Client
import VPlc.Xgt.Wire

/-!
# The drain layer takes a body off the stream, and no more

Seen from the walk, the stream is one string of bytes: the ones it has and the
ones still to come. Fetching moves the border between the two and nothing else
(`ensure_sees`), so a walk can be followed by where the border is when it ends.
Each field of a well-formed body moves it to its own end at most
(`field_sees`), and since the length field of a frame never promises more than
the body has, the border comes to rest at the body's end exactly
(`drain_sees`).
-/

namespace VPlc

open Bytes (leBytes le16)
open Net (Arrives Session)

namespace XgtServer

namespace Drain

/-- The bytes a walk has and will find are `S` together. -/
def Sees (d : Drain) (S : List UInt8) : Prop :=
  ∃ rest, Arrives d.incoming rest ∧ d.body ++ rest = S

section Sees

variable {d : Drain} {S : List UInt8}

theorem Sees.length_le (h : d.Sees S) : d.body.length ≤ S.length := by
  obtain ⟨rest, -, rfl⟩ := h
  rw [List.length_append]
  omega

theorem Sees.le16 (h : d.Sees S) {i : Nat} (hi : i + 2 ≤ d.body.length) :
    Bytes.le16 d.body i = Bytes.le16 S i := by
  obtain ⟨rest, -, rfl⟩ := h
  rw [Bytes.le16_append_left _ _ (by omega)]

theorem Sees.split {a b : List UInt8} (h : d.Sees (a ++ b))
    (hlen : d.body.length = a.length) : d.body = a ∧ Arrives d.incoming b := by
  obtain ⟨rest, harrives, hS⟩ := h
  obtain ⟨hbody, rfl⟩ := List.append_inj hS hlen
  exact ⟨hbody, harrives⟩

theorem ensure_sees {n : Nat} (h : d.Sees S) (hn : n ≤ S.length) :
    ∃ d', d.ensure n = (true, d') ∧ d'.Sees S ∧
      d'.body.length = max d.body.length n := by
  obtain ⟨rest, harrives, hS⟩ := h
  by_cases hlt : d.body.length < n
  · have hrest : n - d.body.length ≤ rest.length := by
      rw [← hS, List.length_append] at hn
      omega
    have htake : (rest.take (n - d.body.length)).length = n - d.body.length := by
      rw [List.length_take]
      omega
    rw [← List.take_append_drop (n - d.body.length) rest] at harrives
    obtain ⟨cs, hrecv, hcs⟩ := harrives.recvExact
    rw [htake] at hrecv
    refine ⟨⟨d.body ++ rest.take (n - d.body.length), cs⟩, ?_, ⟨_, hcs, ?_⟩, ?_⟩
    · rw [ensure, if_pos hlt, hrecv]
    · rw [List.append_assoc, List.take_append_drop, hS]
    · simp only [List.length_append, htake]
      omega
  · refine ⟨d, if_neg hlt, ⟨rest, harrives, hS⟩, ?_⟩
    omega

theorem andThen_true (d : Drain) (f : Drain → Bool × Drain) :
    andThen (true, d) f = f d := rfl

theorem field_sees (len : UInt16 → UInt16) (k : Nat → Drain → Bool × Drain)
    {pre data tail : List UInt8} {w : UInt16} {offset : Nat} (h : d.Sees S)
    (hS : S = pre ++ (leBytes w ++ (data ++ tail))) (hpre : pre.length = offset)
    (hdata : data.length = (len w).toNat) :
    ∃ d', field len offset k d = k (offset + 2 + data.length) d' ∧ d'.Sees S ∧
      d'.body.length = max d.body.length (offset + 2 + data.length) := by
  have hlen : S.length = offset + (2 + (data.length + tail.length)) := by
    simp only [hS, List.length_append, Bytes.length_leBytes, hpre]
  obtain ⟨d₁, hd₁, hsees₁, hlen₁⟩ := ensure_sees (n := offset + 2) h (by omega)
  have hword : Bytes.le16 d₁.body offset = w := by
    rw [hsees₁.le16 (by omega), hS, Bytes.le16_at _ _ _ hpre]
  obtain ⟨d₂, hd₂, hsees₂, hlen₂⟩ :=
    ensure_sees (n := offset + 2 + data.length) hsees₁ (by omega)
  refine ⟨d₂, ?_, hsees₂, by omega⟩
  rw [field, hd₁, andThen_true]
  dsimp only
  rw [hword, ← hdata, hd₂, andThen_true]

end Sees

/-! ## The four shapes -/

section Shapes

variable {d : Drain} {S : List UInt8}

theorem readBlocks_sees {names : List (List UInt8)} {pre tail : List UInt8}
    {offset : Nat} (hfits : ∀ name ∈ names, name.length < 65536) (h : d.Sees S)
    (hS : S = pre ++ (names.flatMap nameBytes ++ tail)) (hpre : pre.length = offset)
    (hlen : offset ≤ d.body.length) :
    ∃ d', readBlocks names.length offset d = (true, d') ∧ d'.Sees S ∧
      d'.body.length =
        max d.body.length (offset + (names.flatMap nameBytes).length) := by
  induction names generalizing pre offset d with
  | nil =>
      refine ⟨d, rfl, h, ?_⟩
      rw [List.flatMap_nil, List.length_nil]
      omega
  | cons name names ih =>
      obtain ⟨hname, hnames⟩ := List.forall_mem_cons.mp hfits
      rw [List.flatMap_cons] at hS ⊢
      rw [List.length_append, length_nameBytes]
      obtain ⟨d₁, hfield, hsees₁, hlen₁⟩ := field_sees id (readBlocks names.length) h
        (by rw [hS, nameBytes]; simp only [List.append_assoc]; rfl) hpre
        (toNat_length_field hname).symm
      have hnext : (pre ++ nameBytes name).length = offset + 2 + name.length := by
        rw [List.length_append, length_nameBytes, hpre]
        omega
      obtain ⟨d₂, hrest, hsees₂, hlen₂⟩ := ih hnames hsees₁
        (by rw [hS]; simp only [List.append_assoc]) hnext (by omega)
      refine ⟨d₂, ?_, hsees₂, by omega⟩
      rw [List.length_cons, readBlocks, hfield, hrest]

theorem writeBlocks_sees {blocks : List WriteBlock} {pre tail : List UInt8}
    {offset : Nat} (hfits : ∀ b ∈ blocks, b.Fits) (h : d.Sees S)
    (hS : S = pre ++ (blocks.flatMap WriteBlock.bytes ++ tail))
    (hpre : pre.length = offset) (hlen : offset ≤ d.body.length) :
    ∃ d', writeBlocks blocks.length offset d = (true, d') ∧ d'.Sees S ∧
      d'.body.length =
        max d.body.length (offset + (blocks.flatMap WriteBlock.bytes).length) := by
  induction blocks generalizing pre offset d with
  | nil =>
      refine ⟨d, rfl, h, ?_⟩
      rw [List.flatMap_nil, List.length_nil]
      omega
  | cons b blocks ih =>
      obtain ⟨hb, hblocks⟩ := List.forall_mem_cons.mp hfits
      rw [List.flatMap_cons] at hS ⊢
      rw [List.length_append, WriteBlock.length_bytes]
      have hname : (pre ++ nameBytes b.name).length = offset + 2 + b.name.length := by
        rw [List.length_append, length_nameBytes, hpre]
        omega
      obtain ⟨d₁, hfield₁, hsees₁, hlen₁⟩ :=
        field_sees id (field writeDataLen · (writeBlocks blocks.length)) h
        (by rw [hS, WriteBlock.bytes, nameBytes]; simp only [List.append_assoc]; rfl) hpre
        (toNat_length_field hb.name).symm
      obtain ⟨d₂, hfield₂, hsees₂, hlen₂⟩ :=
        field_sees writeDataLen (writeBlocks blocks.length) hsees₁
        (by rw [hS, WriteBlock.bytes]; simp only [List.append_assoc]; rw [← List.append_assoc])
        hname hb.data
      have hnext : (pre ++ b.bytes).length =
          offset + 2 + b.name.length + 2 + b.data.length := by
        rw [List.length_append, WriteBlock.length_bytes, hpre]
        omega
      obtain ⟨d₃, hrest, hsees₃, hlen₃⟩ := ih hblocks hsees₂
        (by rw [hS]; simp only [List.append_assoc]) hnext (by omega)
      refine ⟨d₃, ?_, hsees₃, by omega⟩
      rw [List.length_cons, writeBlocks, hfield₁, hfield₂, hrest]

theorem readRun_sees {name tail fixed : List UInt8} {byteCount : UInt16}
    (hfits : name.length < 65536) (h : d.Sees S)
    (hS : S = fixed ++ (nameBytes name ++ leBytes byteCount ++ tail))
    (hfixed : fixed.length = 10) (hlen : 12 ≤ d.body.length) :
    ∃ d', d.readRun = (true, d') ∧ d'.Sees S ∧
      d'.body.length = max d.body.length (12 + name.length + 2) := by
  have hword : Bytes.le16 d.body 10 = UInt16.ofNat name.length := by
    rw [h.le16 hlen, hS, nameBytes]
    simp only [List.append_assoc]
    exact Bytes.le16_at _ _ _ hfixed
  rw [readRun, hword, toNat_length_field hfits]
  refine ensure_sees h ?_
  simp only [hS, List.length_append, length_nameBytes, Bytes.length_leBytes, hfixed]
  omega

theorem writeRun_sees {b : WriteBlock} {tail fixed : List UInt8} (hfits : b.Fits)
    (h : d.Sees S) (hS : S = fixed ++ (b.bytes ++ tail)) (hfixed : fixed.length = 10)
    (hlen : 12 ≤ d.body.length) :
    ∃ d', d.writeRun = (true, d') ∧ d'.Sees S ∧
      d'.body.length = max d.body.length (12 + b.name.length + 2 + b.data.length) := by
  have hword : Bytes.le16 d.body 10 = UInt16.ofNat b.name.length := by
    rw [h.le16 hlen, hS, WriteBlock.bytes, nameBytes]
    simp only [List.append_assoc]
    exact Bytes.le16_at _ _ _ hfixed
  have hsize : S.length = 10 + (2 + b.name.length + (2 + b.data.length) + tail.length) := by
    simp only [hS, List.length_append, WriteBlock.length_bytes, hfixed]
  obtain ⟨d₁, hd₁, hsees₁, hlen₁⟩ :=
    ensure_sees (n := 12 + b.name.length + 2) h (by omega)
  have hname : (fixed ++ nameBytes b.name).length = 12 + b.name.length := by
    rw [List.length_append, length_nameBytes, hfixed]
    omega
  have hdataLen : Bytes.le16 d₁.body (12 + b.name.length) = b.len := by
    rw [hsees₁.le16 (by omega), hS, WriteBlock.bytes]
    simp only [List.append_assoc]
    rw [← List.append_assoc]
    exact Bytes.le16_at _ _ _ hname
  rw [writeRun, hword, toNat_length_field hfits.name, hd₁, andThen_true]
  dsimp only
  rw [hdataLen, ← hfits.data]
  obtain ⟨d₂, hd₂, hsees₂, hlen₂⟩ :=
    ensure_sees (n := 12 + b.name.length + 2 + b.data.length) hsees₁ (by omega)
  exact ⟨d₂, hd₂, hsees₂, by omega⟩

/-- The drain layer, started anywhere inside a body, ends at its end. -/
theorem drain_sees {fixed rest : List UInt8} {c : Content} (hshaped : Shaped fixed c)
    (hnames : c.names ≠ []) (h : d.Sees (fixed ++ (c.bytes ++ rest)))
    (hlen : d.body.length ≤ (fixed ++ c.bytes).length) :
    ∃ d', drain d = (true, d') ∧ d'.body = fixed ++ c.bytes ∧
      Arrives d'.incoming rest := by
  obtain ⟨hfixed, hcommand, hdataType, hcount, hfits⟩ := hshaped
  have hbytes : 2 ≤ c.bytes.length := by
    cases c with
    | read names =>
        obtain ⟨name, names, rfl⟩ := List.exists_cons_of_ne_nil hnames
        simp only [Content.bytes, List.flatMap_cons, List.length_append, length_nameBytes]
        omega
    | write blocks =>
        cases blocks with
        | nil => exact absurd rfl hnames
        | cons b blocks =>
            simp only [Content.bytes, List.flatMap_cons, List.length_append,
              WriteBlock.length_bytes]
            omega
    | readRun name byteCount =>
        simp only [Content.bytes, List.length_append, length_nameBytes]
        omega
    | writeRun block =>
        simp only [Content.bytes, WriteBlock.length_bytes]
        omega
  rw [List.length_append, hfixed] at hlen
  obtain ⟨d₁, hd₁, hsees₁, hlen₁⟩ := ensure_sees (n := 12) h (by
    simp only [List.length_append, hfixed]
    omega)
  have hword : ∀ i, i + 2 ≤ 10 → Bytes.le16 d₁.body i = Bytes.le16 fixed i := by
    intro i hi
    rw [hsees₁.le16 (by omega), Bytes.le16_append_left _ _ (by omega)]
  have hdone : ∀ d₂ : Drain, d₂.Sees (fixed ++ (c.bytes ++ rest)) →
      d₂.body.length = max d₁.body.length (10 + c.bytes.length) →
      d₂.body = fixed ++ c.bytes ∧ Arrives d₂.incoming rest := by
    intro d₂ hsees₂ hlen₂
    rw [← List.append_assoc] at hsees₂
    refine hsees₂.split ?_
    rw [List.length_append, hfixed]
    omega
  have hwalk : ∃ d₂, drain d = (true, d₂) ∧ d₂.Sees (fixed ++ (c.bytes ++ rest)) ∧
      d₂.body.length = max d₁.body.length (10 + c.bytes.length) := by
    rw [drain, hd₁, andThen_true]
    dsimp only
    rw [hword 2 (by omega), hword 4 (by omega), hword 8 (by omega), hcommand]
    cases c with
    | read names =>
        rw [if_neg (fun ht => Bool.false_ne_true (hdataType.mp ht)), Content.command,
          if_pos rfl, hcount rfl]
        exact readBlocks_sees hfits hsees₁ rfl hfixed (by omega)
    | write blocks =>
        rw [if_neg (fun ht => Bool.false_ne_true (hdataType.mp ht)), Content.command,
          if_neg (by decide), if_pos rfl, hcount rfl, Content.names, List.length_map]
        exact writeBlocks_sees hfits hsees₁ rfl hfixed (by omega)
    | readRun name byteCount =>
        rw [if_pos (hdataType.mpr rfl), Content.command, if_pos rfl]
        obtain ⟨d₂, hrun, hsees₂, hlen₂⟩ :=
          readRun_sees hfits hsees₁ rfl hfixed (by omega)
        refine ⟨d₂, hrun, hsees₂, ?_⟩
        rw [hlen₂, Content.bytes, List.length_append, length_nameBytes,
          Bytes.length_leBytes]
        omega
    | writeRun block =>
        rw [if_pos (hdataType.mpr rfl), Content.command, if_neg (by decide), if_pos rfl]
        obtain ⟨d₂, hrun, hsees₂, hlen₂⟩ :=
          writeRun_sees hfits hsees₁ rfl hfixed (by omega)
        refine ⟨d₂, hrun, hsees₂, ?_⟩
        rw [hlen₂, Content.bytes, WriteBlock.length_bytes]
        omega
  obtain ⟨d₂, hdrain, hsees₂, hlen₂⟩ := hwalk
  exact ⟨d₂, hdrain, hdone d₂ hsees₂ hlen₂⟩

end Shapes

end Drain

/-! ## Connections -/

/-- A request as a client sends it. -/
structure Message where
  header : List UInt8
  fixed : List UInt8
  content : Content

namespace Message

def body (b : Message) : List UInt8 := b.fixed ++ b.content.bytes

def wire (b : Message) : List UInt8 := b.header ++ b.body

/-- A read or write request whose length field promises something, and not more
than there is. -/
structure WellFormed (b : Message) : Prop where
  header : b.header.length = 18
  company : b.header.take 8 = lsisXgt ∨ b.header.take 8 = lgisGlo
  shaped : Shaped b.fixed b.content
  names : b.content.names ≠ []
  length_pos : 1 ≤ (le16 b.header 16).toNat
  length_le : (le16 b.header 16).toNat ≤ min 2048 b.body.length

end Message

section Turn

variable {beyond : Nat → UInt8} {sends : Nat → Bool} {b : Message}

theorem Message.WellFormed.headerOk (h : b.WellFormed) : HeaderOk b.header := by
  have hle := h.length_le
  refine ⟨h.company, ?_, ?_⟩
  · intro hzero
    have hpos := h.length_pos
    rw [hzero] at hpos
    exact absurd hpos (by decide)
  · rw [UInt16.le_iff_toNat_le]
    show _ ≤ 2048
    omega

theorem turn_delivers (h : b.WellFormed) :
    Session.Delivers (processRequest beyond) (fun _ => id) Message.wire Message.wire sends
      (turn beyond sends) b := by
  intro s rest harrives
  rw [Message.wire, List.append_assoc] at harrives
  obtain ⟨cs, hheader, hcs⟩ := harrives.recvExact
  have hle : (le16 b.header 16).toNat ≤ b.body.length :=
    h.length_le.trans (Nat.min_le_right _ _)
  obtain ⟨L, hL⟩ : ∃ L, (le16 b.header 16).toNat = L := ⟨_, rfl⟩
  rw [hL] at hle
  have htake : ((b.body ++ rest).take L).length = L := by
    rw [List.length_take, List.length_append]
    omega
  have hstream := List.take_append_drop L (b.body ++ rest)
  rw [← hstream] at hcs
  obtain ⟨cs', hbody, hcs'⟩ := hcs.recvExact
  have hsees : Drain.Sees ⟨(b.body ++ rest).take L, cs'⟩
      (b.fixed ++ (b.content.bytes ++ rest)) := by
    refine ⟨_, hcs', ?_⟩
    rw [hstream, Message.body, List.append_assoc]
  obtain ⟨d, hdrain, hd, hrest⟩ :=
    Drain.drain_sees h.shaped h.names hsees (by rw [htake]; exact hle)
  refine ⟨d.incoming, hrest, ?_⟩
  rw [h.header] at hheader
  rw [htake] at hbody
  simp only [turn, hheader, if_neg (not_not.mpr h.headerOk), hL, hbody, hdrain, hd]
  rfl

theorem turn_ends : Session.Ends (turn beyond sends) := by
  rintro ⟨state, _, requests, outgoing⟩ rfl
  rfl

end Turn

/-- However far the length fields fall short and wherever the stream is cut, the
requests processed are the ones that were sent: all of them if the server runs
on and can send its replies, the first so many if not. -/
theorem xgt_resynchronises (beyond : Nat → UInt8) (sends : Nat → Bool) (turns : Nat)
    (m : PlcMemory) (bs : List Message) (incoming : List (List UInt8))
    (hbs : ∀ b ∈ bs, b.WellFormed) (h : Arrives incoming (bs.flatMap Message.wire)) :
    (∃ k, (handleClient beyond sends turns m incoming).requests =
      (bs.map Message.wire).take k) ∧
    (bs.length ≤ turns → (∀ i, i + 1 < bs.length → sends i = true) →
      (handleClient beyond sends turns m incoming).requests = bs.map Message.wire ∧
        (handleClient beyond sends turns m incoming).state =
          (bs.map Message.wire).foldl (fun m r => (processRequest beyond m r).1) m) := by
  have hturn : ∀ b ∈ bs, Session.Delivers (processRequest beyond) (fun _ => id)
      Message.wire Message.wire sends (turn beyond sends) b :=
    fun b hb => turn_delivers (hbs b hb)
  refine ⟨Session.run_prefix turn_ends hturn turns (Session.start m incoming) h,
    fun hturns hsends => ?_⟩
  exact Session.start_delivers turn_ends hturn hturns m hsends h

/-- A read of `%MW10` with a length field two short. -/
def shortRead : Message where
  header := lsisXgt ++ [0, 0, 0, 0, 0, 0x33, 0, 0, 15, 0]
  fixed := [0, 0, 0x54, 0, 2, 0, 0, 0, 1, 0]
  content := .read [[0x25, 0x4D, 0x57, 0x31, 0x30]]

theorem shortRead_wellFormed : shortRead.WellFormed where
  header := rfl
  company := Or.inl rfl
  shaped := ⟨rfl, by decide, by decide, by decide, by
    intro name hname
    cases List.mem_singleton.mp hname
    decide⟩
  names := by decide
  length_pos := by decide
  length_le := by decide

/-- Two of them, the first cut in the middle of what its length field covers. -/
theorem xgt_resynchronises_shortRead :
    (handleClient (fun _ => 0) (fun _ => true) 2 PlcMemory.default
      [shortRead.wire.take 20, shortRead.wire.drop 20, shortRead.wire]).requests =
        [shortRead.wire, shortRead.wire] := by
  have hall : ∀ b ∈ [shortRead, shortRead], b.WellFormed := by
    intro b hb
    simp only [List.mem_cons, List.not_mem_nil, or_false, or_self] at hb
    rw [hb]
    exact shortRead_wellFormed
  have harrives : Arrives [shortRead.wire.take 20, shortRead.wire.drop 20, shortRead.wire]
      ([shortRead, shortRead].flatMap Message.wire) := by
    refine ⟨by decide, ?_⟩
    decide
  exact ((xgt_resynchronises (fun _ => 0) (fun _ => true) 2 PlcMemory.default
    [shortRead, shortRead] _ hall harrives).2 (by decide) (fun _ _ => rfl)).1

end XgtServer

end VPlc
