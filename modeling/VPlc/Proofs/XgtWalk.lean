import VPlc.Proofs.XgtDrain
import VPlc.Proofs.XgtParse

/-!
# The drain layer and the request processor read the same body

The walk of the drain layer and the loops of `processRequest` are two parsers of
one format, written apart and with different offsets. Neither is translated into
the other here. A walk that ends well has only ever added to the body, and
everything it asked for is there, so the body it leaves is well formed
(`drain_shaped`); and on a well-formed body the processor finds every length in
order (`execute_fault`).
-/

namespace VPlc

open Bytes (leBytes le16)

namespace XgtServer

namespace Drain

/-! ## What a walk leaves behind -/

section Leaves

variable {d d' : Drain}

theorem ensure_true {n : Nat} (h : d.ensure n = (true, d')) :
    d.body <+: d'.body ∧ n ≤ d'.body.length := by
  rw [ensure] at h
  split at h
  · next hlt =>
      rcases hr : Net.recvExact (n - d.body.length) d.incoming with ⟨_ | extra, incoming⟩
      · rw [hr] at h
        cases h
      · rw [hr] at h
        cases h
        refine ⟨List.prefix_append _ _, ?_⟩
        rw [List.length_append, Net.recvExact_length hr]
        omega
  · next hge =>
      cases h
      exact ⟨List.prefix_refl _, by omega⟩

theorem andThen_eq_true {r : Bool × Drain} {f : Drain → Bool × Drain}
    (h : andThen r f = (true, d')) : ∃ d₁, r = (true, d₁) ∧ f d₁ = (true, d') := by
  obtain ⟨ok, d₁⟩ := r
  cases ok with
  | false => cases h
  | true => exact ⟨d₁, rfl, h⟩

/-- A walk that only adds to the body. -/
def Adds (k : Drain → Bool × Drain) : Prop :=
  ∀ d d', k d = (true, d') → d.body <+: d'.body

theorem field_true {len : UInt16 → UInt16} {offset : Nat}
    {k : Nat → Drain → Bool × Drain} (hk : ∀ o, Adds (k o))
    (h : field len offset k d = (true, d')) :
    d.body <+: d'.body ∧ ∃ n d₂, n = (len (le16 d'.body offset)).toNat ∧
      offset + 2 + n ≤ d₂.body.length ∧ k (offset + 2 + n) d₂ = (true, d') := by
  obtain ⟨d₁, h₁, h⟩ := andThen_eq_true h
  obtain ⟨d₂, h₂, h⟩ := andThen_eq_true h
  obtain ⟨hpre₁, hlen₁⟩ := ensure_true h₁
  obtain ⟨hpre₂, hlen₂⟩ := ensure_true h₂
  have hpre := hpre₂.trans (hk _ _ _ h)
  refine ⟨hpre₁.trans hpre, _, d₂, rfl, ?_, ?_⟩
  · rw [← Bytes.le16_of_prefix hpre hlen₁]
    exact hlen₂
  · rw [← Bytes.le16_of_prefix hpre hlen₁]
    exact h

theorem field_adds {len : UInt16 → UInt16} {offset : Nat}
    {k : Nat → Drain → Bool × Drain} (hk : ∀ o, Adds (k o)) : Adds (field len offset k) :=
  fun _ _ h => (field_true hk h).1

theorem readBlocks_adds (b offset : Nat) : Adds (readBlocks b offset) := by
  induction b generalizing offset with
  | zero =>
      intro d d' h
      cases h
      exact List.prefix_refl _
  | succ b ih => exact field_adds ih

theorem writeBlocks_adds (b offset : Nat) : Adds (writeBlocks b offset) := by
  induction b generalizing offset with
  | zero =>
      intro d d' h
      cases h
      exact List.prefix_refl _
  | succ b ih => exact field_adds fun _ => field_adds ih

theorem drop_eq_nameBytes (bs : List UInt8) (offset : Nat) {n : Nat}
    (hn : n = (le16 bs offset).toNat) (hlen : offset + 2 + n ≤ bs.length) :
    ∃ name : List UInt8, name.length = n ∧ name.length < 65536 ∧
      bs.drop offset = nameBytes name ++ bs.drop (offset + 2 + n) := by
  have hname : ((bs.drop (offset + 2)).take n).length = n := by
    rw [List.length_take, List.length_drop]
    omega
  have hlt := (le16 bs offset).toNat_lt
  refine ⟨_, hname, by omega, ?_⟩
  rw [nameBytes, hname, hn, UInt16.ofNat_toNat, ← hn, List.append_assoc]
  exact Bytes.drop_eq_field bs n hlen

theorem readBlocks_shaped {b offset : Nat} (h : readBlocks b offset d = (true, d')) :
    ∃ (names : List (List UInt8)) (tail : List UInt8),
      names.length = b ∧ (∀ name ∈ names, name.length < 65536) ∧
      d'.body.drop offset = names.flatMap nameBytes ++ tail := by
  induction b generalizing offset d with
  | zero => exact ⟨[], d'.body.drop offset, rfl, by simp, rfl⟩
  | succ b ih =>
      obtain ⟨-, n, d₂, hn, hlen, hrest⟩ := field_true (readBlocks_adds b) h
      have hle := (readBlocks_adds b _ _ _ hrest).length_le
      obtain ⟨name, -, hname, hdrop⟩ := drop_eq_nameBytes d'.body offset hn (by omega)
      obtain ⟨names, tail, hcount, hnames, hbytes⟩ := ih hrest
      refine ⟨name :: names, tail, by rw [List.length_cons, hcount],
        List.forall_mem_cons.mpr ⟨hname, hnames⟩, ?_⟩
      rw [hdrop, hbytes, List.flatMap_cons, List.append_assoc]

theorem writeBlocks_shaped {b offset : Nat} (h : writeBlocks b offset d = (true, d')) :
    ∃ (blocks : List WriteBlock) (tail : List UInt8),
      blocks.length = b ∧ (∀ w ∈ blocks, w.Fits) ∧
      d'.body.drop offset = blocks.flatMap WriteBlock.bytes ++ tail := by
  induction b generalizing offset d with
  | zero => exact ⟨[], d'.body.drop offset, rfl, by simp, rfl⟩
  | succ b ih =>
      obtain ⟨-, n, d₂, hn, hlen, hdata⟩ :=
        field_true (fun _ => field_adds (writeBlocks_adds b)) h
      obtain ⟨hpre, n', d₃, hn', hlen', hrest⟩ := field_true (writeBlocks_adds b) hdata
      have hle := hpre.length_le
      have hle' := (writeBlocks_adds b _ _ _ hrest).length_le
      obtain ⟨name, -, hname, hdrop⟩ := drop_eq_nameBytes d'.body offset hn (by omega)
      have hdrop' := Bytes.drop_eq_field d'.body n' (i := offset + 2 + n) (by omega)
      have hsize : ((d'.body.drop (offset + 2 + n + 2)).take n').length = n' := by
        rw [List.length_take, List.length_drop]
        omega
      obtain ⟨blocks, tail, hcount, hblocks, hbytes⟩ := ih hrest
      refine ⟨⟨name, le16 d'.body (offset + 2 + n), _⟩ :: blocks, tail,
        by rw [List.length_cons, hcount],
        List.forall_mem_cons.mpr ⟨⟨hname, hsize.trans hn'⟩, hblocks⟩, ?_⟩
      rw [hdrop, hdrop', hbytes, List.flatMap_cons, WriteBlock.bytes]
      simp only [List.append_assoc]

theorem readRun_shaped (hlen : 12 ≤ d.body.length) (h : d.readRun = (true, d')) :
    d.body <+: d'.body ∧ ∃ (name tail : List UInt8) (byteCount : UInt16),
      name.length < 65536 ∧
      d'.body.drop 10 = (nameBytes name ++ leBytes byteCount) ++ tail := by
  obtain ⟨hpre, hle⟩ := ensure_true h
  rw [Bytes.le16_of_prefix hpre hlen] at hle
  obtain ⟨name, -, hname, hdrop⟩ :=
    drop_eq_nameBytes d'.body 10 rfl (by omega)
  obtain ⟨n, hn⟩ : ∃ n, 10 + 2 + (le16 d'.body 10).toNat = n := ⟨_, rfl⟩
  rw [hn] at hdrop
  have hcount := Bytes.drop_eq_field d'.body 0 (i := n) (by omega)
  refine ⟨hpre, name, d'.body.drop (n + 2 + 0), le16 d'.body n, hname, ?_⟩
  rw [hdrop, hcount, List.take_zero, List.nil_append, List.append_assoc]

theorem writeRun_shaped (hlen : 12 ≤ d.body.length) (h : d.writeRun = (true, d')) :
    d.body <+: d'.body ∧ ∃ (w : WriteBlock) (tail : List UInt8),
      w.Fits ∧ d'.body.drop 10 = w.bytes ++ tail := by
  obtain ⟨n, hn⟩ : ∃ n, (le16 d.body 10).toNat = n := ⟨_, rfl⟩
  rw [writeRun, hn] at h
  obtain ⟨d₁, h₁, h₂⟩ := andThen_eq_true h
  obtain ⟨hpre₁, hle₁⟩ := ensure_true h₁
  obtain ⟨hpre₂, hle₂⟩ := ensure_true h₂
  have hpre := hpre₁.trans hpre₂
  rw [Bytes.le16_of_prefix hpre hlen] at hn
  rw [Bytes.le16_of_prefix hpre₂ hle₁] at hle₂
  obtain ⟨name, -, hname, hdrop⟩ :=
    drop_eq_nameBytes d'.body 10 hn.symm (by omega)
  obtain ⟨n', hn'⟩ : ∃ n', (writeDataLen (le16 d'.body (12 + n))).toNat = n' := ⟨_, rfl⟩
  rw [hn'] at hle₂
  have hdrop' := Bytes.drop_eq_field d'.body n' (i := 12 + n) (by omega)
  have hsize : ((d'.body.drop (12 + n + 2)).take n').length = n' := by
    rw [List.length_take, List.length_drop]
    omega
  refine ⟨hpre, ⟨name, le16 d'.body (12 + n), (d'.body.drop (12 + n + 2)).take n'⟩,
    d'.body.drop (12 + n + 2 + n'), ⟨hname, hsize.trans hn'.symm⟩, ?_⟩
  rw [hdrop, hdrop', WriteBlock.bytes]
  simp only [List.append_assoc]

/-- A body the walk has got through says what it announces. -/
theorem drain_shaped (h : drain d = (true, d'))
    (hcommand : le16 d'.body 2 = 0x0054 ∨ le16 d'.body 2 = 0x0058) :
    12 ≤ d'.body.length ∧ ∃ c tail, Shaped (d'.body.take 10) c ∧
      d'.body = d'.body.take 10 ++ (c.bytes ++ tail) := by
  rw [drain] at h
  obtain ⟨d₁, h₁, h⟩ := andThen_eq_true h
  have hlen := (ensure_true h₁).2
  -- which walk was taken, read off the first ten bytes
  suffices hwalk : d₁.body <+: d'.body ∧ ∃ (c : Content) (tail : List UInt8),
      le16 d₁.body 2 = c.command ∧ (le16 d₁.body 4 = 0x0014 ↔ c.isRun = true) ∧
      (c.isRun = false → (le16 d₁.body 8).toNat = c.names.length) ∧ c.Fits ∧
      d'.body.drop 10 = c.bytes ++ tail by
    obtain ⟨hpre, c, tail, hcmd, hdataType, hcount, hfits, hdrop⟩ := hwalk
    have hle := hpre.length_le
    have htake : (d'.body.take 10).length = 10 := by
      rw [List.length_take]
      omega
    have hword : ∀ i, i + 2 ≤ 10 → le16 (d'.body.take 10) i = le16 d₁.body i := by
      intro i hi
      rw [Bytes.le16_of_prefix (List.take_prefix 10 d'.body) (by omega),
        Bytes.le16_of_prefix hpre (by omega)]
    refine ⟨by omega, c, tail, ?_, ?_⟩
    · exact ⟨htake, by rw [hword 2 (by omega), hcmd],
        by rw [hword 4 (by omega), hdataType],
        fun hrun => by rw [hword 8 (by omega), hcount hrun], hfits⟩
    · rw [← hdrop, List.take_append_drop]
  dsimp only at h
  split at h
  · next hrun =>
      split at h
      · next hread =>
          obtain ⟨hpre, name, tail, byteCount, hname, hdrop⟩ := readRun_shaped hlen h
          exact ⟨hpre, .readRun name byteCount, tail, hread, iff_of_true hrun rfl,
            fun hf => absurd hf.symm Bool.false_ne_true, hname, hdrop⟩
      split at h
      · next hwrite =>
          obtain ⟨hpre, w, tail, hw, hdrop⟩ := writeRun_shaped hlen h
          exact ⟨hpre, .writeRun w, tail, hwrite, iff_of_true hrun rfl,
            fun hf => absurd hf.symm Bool.false_ne_true, hw, hdrop⟩
      · next hread hwrite =>
          cases h
          exact absurd hcommand (not_or.mpr ⟨hread, hwrite⟩)
  · next hrun =>
      split at h
      · next hread =>
          obtain ⟨names, tail, hcount, hnames, hdrop⟩ := readBlocks_shaped h
          exact ⟨readBlocks_adds _ _ _ _ h, .read names, tail, hread,
            iff_of_false hrun Bool.false_ne_true, fun _ => hcount.symm, hnames, hdrop⟩
      split at h
      · next hwrite =>
          obtain ⟨blocks, tail, hcount, hblocks, hdrop⟩ := writeBlocks_shaped h
          refine ⟨writeBlocks_adds _ _ _ _ h, .write blocks, tail, hwrite,
            iff_of_false hrun Bool.false_ne_true, fun _ => ?_, hblocks, hdrop⟩
          rw [Content.names, List.length_map, hcount]
      · next hread hwrite =>
          cases h
          exact absurd hcommand (not_or.mpr ⟨hread, hwrite⟩)

end Leaves

end Drain

/-! ## What the processor makes of it -/

section Process

variable {beyond : Nat → UInt8} {m : PlcMemory} {request header fixed tail : List UInt8}
  {c : Content}

theorem header_fields (hheader : header.length = 18) (hfixed : fixed.length = 10)
    (hR : request = header ++ (fixed ++ tail)) :
    le16 request 20 = le16 fixed 2 ∧ le16 request 22 = le16 fixed 4 ∧
      le16 request 26 = le16 fixed 8 := by
  have hword : ∀ i j, i = 18 + j → j + 2 ≤ 10 → le16 request i = le16 fixed j := by
    intro i j hi hj
    rw [hR, Bytes.le16_append_right _ _ (by omega), hheader, hi, Nat.add_sub_cancel_left,
      Bytes.le16_append_left _ _ (by omega)]
  exact ⟨hword 20 2 rfl (by omega), hword 22 4 rfl (by omega), hword 26 8 rfl (by omega)⟩

/-- On a well-formed body, only a name can stop a request. -/
theorem execute_fault (hheader : header.length = 18) (hshaped : Shaped fixed c)
    (hR : request = header ++ (fixed ++ (c.bytes ++ tail))) (hlen : 30 ≤ request.length) :
    (execute beyond request m).2.2 = (resolveAll c.names).2 := by
  obtain ⟨hfixed, hcommand, hdataType, hcount, hfits⟩ := hshaped
  have hR' : request = (header ++ fixed) ++ (c.bytes ++ tail) := by
    rw [hR, List.append_assoc]
  have hpre : (header ++ fixed).length = 28 := by
    rw [List.length_append, hheader, hfixed]
  obtain ⟨h20, h22, h26⟩ := header_fields hheader hfixed hR
  rw [hcommand] at h20
  rw [← h22] at hdataType
  rw [← h26] at hcount
  have hhead : c.isRun = true → RunHead (header ++ fixed) c.command := by
    intro hrun
    rw [hR', Bytes.le16_append_left _ _ (by omega)] at h20 hdataType
    exact ⟨hpre, h20, hdataType.mpr hrun⟩
  cases c with
  | read names =>
      rw [execute_read hlen h20 (fun ht => Bool.false_ne_true (hdataType.mp ht)), hcount rfl]
      exact congrArg Prod.snd (parseNames_content hfits hR' hpre)
  | write blocks =>
      rw [execute_write hlen h20 (fun ht => Bool.false_ne_true (hdataType.mp ht)),
        hcount rfl, Content.names, List.length_map]
      exact parseWrites_fault hfits hR' hpre
  | readRun name byteCount =>
      have hfields : RunFields request 0x0054 byteCount name tail := by
        rw [hR', Content.bytes]
        simp only [List.append_assoc]
        rw [← List.append_assoc]
        exact run_fields (hhead rfl) hfits
      rw [execute_runRead hfields, Content.names, resolveAll]
      cases resolveAddress name with
      | none => rfl
      | some addr => rfl
  | writeRun w =>
      have hfields : RunFields request 0x0058 w.len w.name (w.data ++ tail) := by
        rw [hR', Content.bytes, WriteBlock.bytes]
        simp only [List.append_assoc]
        rw [← List.append_assoc]
        exact run_fields (hhead rfl) hfits.name
      rw [execute_runWrite hfields (by rw [← hfits.data, List.length_append]; omega),
        Content.names, resolveAll]
      cases resolveAddress w.name with
      | none => rfl
      | some addr => rfl

theorem respond_eq (hlen : 12 ≤ request.length) (respData : List UInt8) (status : UInt16) :
    ∃ pre : List UInt8, pre.length = 26 ∧
      respond request respData status = pre ++ (leBytes status ++
        (leBytes (if le16 request 22 = 0x0014 then 1 else le16 request 26) ++ respData)) := by
  have htake : (request.take 12).length = 12 := by
    rw [List.length_take]
    omega
  rw [respond, List.append_assoc, List.append_assoc]
  refine ⟨_, ?_, rfl⟩
  simp only [List.length_append, htake, Bytes.length_leBytes, List.length_cons,
    List.length_nil]

theorem status_reply (hlen : 12 ≤ request.length) (respData : List UInt8)
    (fault : Option Fault) :
    le16 (reply request respData fault) 26 = errorStatus fault := by
  have hrespond : ∀ status : UInt16, le16 (respond request respData status) 26 = status := by
    intro status
    obtain ⟨pre, hpre, heq⟩ := respond_eq hlen respData status
    rw [heq, Bytes.le16_at _ _ _ hpre]
  have herror : ∀ cmd status : UInt16, le16 (errorReply cmd status) 26 = status := by
    intro cmd status
    exact Bytes.word_high_low status
  cases fault with
  | none => exact hrespond _
  | some fault =>
      cases fault with
      | request => exact herror _ _
      | name => exact herror _ _
      | length => exact hrespond _
      | address => exact hrespond _
      | command => exact hrespond _

theorem errorStatus_eq_zero {fault : Option Fault} : errorStatus fault = 0 ↔ fault = none := by
  cases fault with
  | none => exact iff_of_true rfl rfl
  | some fault => cases fault <;> exact iff_of_false (by decide) (Option.some_ne_none _)

theorem status_processRequest :
    le16 (processRequest beyond m request).2 26 =
      errorStatus (execute beyond request m).2.2 := by
  rw [processRequest]
  by_cases hlen : 12 ≤ request.length
  · exact status_reply hlen _ _
  · rw [execute, if_pos (by omega)]
    exact Bytes.word_high_low _

theorem reply_none (respData : List UInt8) :
    reply request respData none = respond request respData 0x0000 := rfl

/-- A fault that is found late is answered under the request's own header. -/
theorem reply_late {fault : Option Fault} (h : fault ∉ [some .request, some .name])
    (respData : List UInt8) :
    reply request respData fault = respond request respData (errorStatus fault) := by
  unfold reply
  split
  · exact absurd (by simp) h
  · exact absurd (by simp) h
  · rfl

theorem drop_respond (hlen : 12 ≤ request.length) (respData : List UInt8)
    (status : UInt16) : (respond request respData status).drop 30 = respData := by
  obtain ⟨pre, hpre, heq⟩ := respond_eq hlen respData status
  rw [heq, ← List.append_assoc, ← List.append_assoc]
  refine (congrArg (List.drop · _) ?_).trans List.drop_left
  simp only [List.length_append, hpre, Bytes.length_leBytes]

theorem blockCount_respond (hlen : 12 ≤ request.length) (respData : List UInt8)
    (status : UInt16) (hdataType : le16 request 22 ≠ 0x0014) :
    le16 (respond request respData status) 28 = le16 request 26 := by
  obtain ⟨pre, hpre, heq⟩ := respond_eq hlen respData status
  rw [heq, if_neg hdataType, ← List.append_assoc]
  refine Bytes.le16_at _ _ _ ?_
  rw [List.length_append, hpre, Bytes.length_leBytes]

end Process

/-! ## Both together -/

/-- If the drain layer gets through a read or write, no length check of the
processor fails on what it leaves: the body is well formed, and however one
reads it, the status of the reply tells whether its names resolve. -/
theorem xgt_walks_agree (beyond : Nat → UInt8) (m : PlcMemory) (header body : List UInt8)
    (incoming : List (List UInt8)) (d : Drain) (hheader : header.length = 18)
    (hdrain : Drain.drain ⟨body, incoming⟩ = (true, d))
    (hcommand : le16 d.body 2 = 0x0054 ∨ le16 d.body 2 = 0x0058) :
    (∃ c tail, Shaped (d.body.take 10) c ∧ d.body = d.body.take 10 ++ (c.bytes ++ tail)) ∧
    ∀ c tail, Shaped (d.body.take 10) c → d.body = d.body.take 10 ++ (c.bytes ++ tail) →
      (execute beyond (header ++ d.body) m).2.2 ∉
          [some .request, some .name, some .length] ∧
        le16 (processRequest beyond m (header ++ d.body)).2 26 =
          if ∀ name ∈ c.names, (resolveAddress name).isSome then 0 else 0x1102 := by
  obtain ⟨hlen, hshaped⟩ := Drain.drain_shaped hdrain hcommand
  refine ⟨hshaped, ?_⟩
  intro c tail hc hbody
  have hsize : (header ++ d.body).length = 18 + d.body.length := by
    rw [List.length_append, hheader]
  have hfault : (execute beyond (header ++ d.body) m).2.2 = _ := execute_fault hheader hc
    (congrArg (header ++ ·) hbody) (by omega)
  rw [status_processRequest, hfault, resolveAll_fault]
  split
  · exact ⟨by decide, rfl⟩
  · exact ⟨by decide, rfl⟩

/-- `shortRead`, with two bytes of its body still to come. -/
theorem xgt_walks_agree_shortRead :
    (Drain.drain ⟨shortRead.body.take 15, [shortRead.body.drop 15]⟩).1 = true ∧
      (execute (fun _ => 0) (shortRead.header ++ shortRead.body) PlcMemory.default).2.2 ∉
        [some .request, some .name, some .length] :=
  ⟨by decide, ((xgt_walks_agree (fun _ => 0) PlcMemory.default shortRead.header
    (shortRead.body.take 15) [shortRead.body.drop 15] ⟨shortRead.body, []⟩ rfl rfl
    (Or.inl rfl)).2 shortRead.content [] shortRead_wellFormed.shaped (by decide)).1⟩

end XgtServer

end VPlc
