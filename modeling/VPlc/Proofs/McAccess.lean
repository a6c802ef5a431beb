import VPlc.Mc.Access

/-!
# What the MC server looks at, and what it fills

The reply is built in two buffers, each made as long as the request asks for and
then filled from the front, so at every turn of a loop the buffer is what has
been put there and the zeros behind it. The flags of a bit read are or'ed in, two
to a byte. With the two length checks of the writes that is all it takes:
`processRequest_returns`.
-/

namespace VPlc

open Bytes (Logged flagAt leBytes le16 le24 packFlags)
open Bytes.Logged (Returns)

namespace McServer

open Watched (zeros)

/-! ## Replies -/

section Fill

theorem zeros_add (n k : Nat) : zeros (n + k) = zeros n ++ zeros k := List.replicate_add ..

theorem success_returns : Watched.success.Returns (leBytes 0x0000) := by
  have hfill : (Bytes.Logged.storeLe16 ([] ++ 0 :: 0 :: []) 0 0x0000).Returns _ :=
    .storeLe16 rfl 0 0 0x0000
  exact hfill

theorem makeErrorResponse_returns (endCode : UInt16) :
    (Watched.makeErrorResponse endCode).Returns (makeErrorResponse endCode) := by
  have hlength : (Bytes.Logged.storeLe16
      ([0xD0, 0x00, 0x00, 0xFF, 0xFF, 0x03, 0x00] ++ 0 :: 0 :: [0, 0]) 7 2).Returns _ :=
    .storeLe16 rfl 0 0 2
  have hcode : (Bytes.Logged.storeLe16
      (([0xD0, 0x00, 0x00, 0xFF, 0xFF, 0x03, 0x00] ++ leBytes 2) ++ 0 :: 0 :: []) 9
        endCode).Returns _ :=
    .storeLe16 rfl 0 0 endCode
  rw [List.append_nil] at hcode
  unfold Watched.makeErrorResponse
  refine .bind (.set (by decide) _) (.bind (.set (by decide) _) ?_)
  refine .bind (.set (by decide) _) (.bind (.set (by decide) _) ?_)
  refine .bind (.set (by decide) _) (.bind (.set (by decide) _) ?_)
  exact .bind (.set (by decide) _) (.bind hlength hcode)

theorem readWords_returns (m : PlcMemory) (area : String) (startAddr : UInt32)
    (points : Nat) :
    (Watched.readWords m area startAddr points).Returns
      (readWords m area startAddr points) := by
  -- the words put there before turn `i`
  obtain ⟨data, hdata⟩ : ∃ data : Nat → List UInt8, ∀ i, (List.range i).flatMap (fun i =>
      leBytes (m.readMCWord area (pointIndex startAddr i))) = data i := ⟨_, fun _ => rfl⟩
  have hlen : ∀ i, (data i).length = 2 * i := by
    intro i
    rw [← hdata, List.length_flatMap]
    simp [Nat.mul_comm]
  have hnext : ∀ i, data (i + 1) =
      data i ++ leBytes (m.readMCWord area (pointIndex startAddr i)) := by
    intro i
    rw [← hdata, ← hdata, List.range_succ, List.flatMap_append, List.flatMap_singleton]
  have hloop := @Returns.foldlM (List UInt8)
    (fun respData i => Bytes.Logged.storeLe16 respData (2 + i * 2)
      (m.readMCWord area (pointIndex startAddr i))) points
    (fun i => (leBytes 0x0000 ++ data i) ++ zeros ((points - i) * 2)) ?_
  · have hhead : (Bytes.Logged.storeLe16 ([] ++ 0 :: 0 :: zeros (points * 2)) 0 0x0000).Returns _ :=
      .storeLe16 rfl 0 0 0x0000
    have hfirst : data 0 = [] := (hdata 0).symm
    rw [hfirst, List.append_nil, Nat.sub_self, Nat.zero_mul, show zeros 0 = [] from rfl,
      List.append_nil] at hloop
    rw [Watched.readWords, zeros_add, readWords, hdata]
    exact .bind hhead hloop
  · intro i hi
    have hroom : zeros ((points - i) * 2) = 0 :: 0 :: zeros ((points - (i + 1)) * 2) := by
      rw [show (points - i) * 2 = 2 + (points - (i + 1)) * 2 by omega, zeros_add]
      rfl
    have hpre : (leBytes 0x0000 ++ data i).length = 2 + i * 2 := by
      rw [List.length_append, hlen, Bytes.length_leBytes]
      omega
    rw [hroom, hnext, ← List.append_assoc, List.append_assoc (leBytes 0x0000 ++ data i)]
    exact .storeLe16 hpre 0 0 _

theorem readBits_returns (m : PlcMemory) (area : String) (startAddr : UInt32)
    (points : Nat) :
    (Watched.readBits m area startAddr points).Returns
      (readBits m area startAddr points) := by
  -- the flags or'ed in before turn `i`
  obtain ⟨data, hdata⟩ : ∃ data : Nat → List UInt8, ∀ i, (List.range i).foldl
      (fun data i => data.modify (i / 2)
        (Bytes.orFlag (m.readMCBit area (pointIndex startAddr i)) i))
      (zeros ((points + 1) / 2)) = data i := ⟨_, fun _ => rfl⟩
  have hnext : ∀ i, data (i + 1) = (data i).modify (i / 2)
      (Bytes.orFlag (m.readMCBit area (pointIndex startAddr i)) i) := by
    intro i
    rw [← hdata, ← hdata, List.range_succ, List.foldl_append]
    rfl
  have hlen : ∀ i, (data i).length = (points + 1) / 2 := by
    intro i
    induction i with
    | zero =>
        rw [← hdata]
        exact List.length_replicate
    | succ i ih => rw [hnext, List.length_modify, ih]
  have hloop := @Returns.foldlM (List UInt8)
    (fun respData i => Bytes.Logged.modify respData (2 + i / 2)
      (Bytes.orFlag (m.readMCBit area (pointIndex startAddr i)) i)) points
    (fun i => leBytes 0x0000 ++ data i) ?_
  · have hhead : (Bytes.Logged.storeLe16 ([] ++ 0 :: 0 :: zeros ((points + 1) / 2)) 0
        0x0000).Returns _ := .storeLe16 rfl 0 0 0x0000
    rw [← hdata] at hloop
    rw [Watched.readBits, zeros_add, readBits, packFlags]
    rw [← hdata points] at hloop
    exact .bind hhead hloop
  · intro i hi
    have hplace : leBytes 0x0000 ++ data (i + 1) = (leBytes 0x0000 ++ data i).modify (2 + i / 2)
        (Bytes.orFlag (m.readMCBit area (pointIndex startAddr i)) i) := by
      rw [hnext, Nat.add_comm 2]
      rfl
    rw [hplace]
    refine .modify ?_ _
    rw [List.length_append, hlen, Bytes.length_leBytes]
    omega

end Fill

/-! ## Requests -/

section Watched

variable (beyond : Nat → UInt8) {m : PlcMemory} {request : List UInt8}

theorem respond_returns (hlen : 7 ≤ request.length) (respData : List UInt8) :
    (Watched.respond beyond request respData).Returns (respond request respData) := by
  obtain ⟨b, hb⟩ : ∃ b : Nat → UInt8, ∀ i, request.getD i 0 = b i := ⟨_, fun _ => rfl⟩
  obtain ⟨room, hroom⟩ : ∃ room, zeros respData.length = room := ⟨_, rfl⟩
  obtain ⟨n, hn⟩ : ∃ n, UInt16.ofNat respData.length = n := ⟨_, rfl⟩
  have hload : ∀ i, i < 7 → (Bytes.Logged.load beyond request i).Returns (b i) := by
    intro i hi
    rw [← hb]
    exact .load beyond (by omega)
  have hlength : (Bytes.Logged.storeLe16 ([0xD0, 0x00, b 2, b 3, b 4, b 5, b 6] ++
      0 :: 0 :: room) 7 n).Returns _ := .storeLe16 rfl 0 0 n
  have hdata : (Bytes.Logged.storeSlice (([0xD0, 0x00, b 2, b 3, b 4, b 5, b 6] ++ leBytes n) ++
      (room ++ [])) 9 respData).Returns _ :=
    .storeSlice rfl (by rw [← hroom, zeros, List.length_replicate])
  rw [List.append_nil, List.append_nil] at hdata
  rw [Watched.respond, zeros_add, hroom, hn, respond, hn, hb, hb, hb, hb, hb]
  have hset : ∀ i v (bs : List UInt8), i < 9 → bs.length = room.length + 9 →
      (Bytes.Logged.store bs i v).Returns (bs.set i v) := by
    intro i v bs hi hbs
    exact .set (by omega) v
  refine .bind (hset 0 _ _ (by omega) rfl) ?_
  refine .bind (hset 1 _ _ (by omega) rfl) ?_
  refine .bind (hload 2 (by omega)) (.bind (hset 2 _ _ (by omega) rfl) ?_)
  refine .bind (hload 3 (by omega)) (.bind (hset 3 _ _ (by omega) rfl) ?_)
  refine .bind (hload 4 (by omega)) (.bind (hset 4 _ _ (by omega) rfl) ?_)
  refine .bind (hload 5 (by omega)) (.bind (hset 5 _ _ (by omega) rfl) ?_)
  refine .bind (hload 6 (by omega)) (.bind (hset 6 _ _ (by omega) rfl) ?_)
  exact .bind hlength hdata

theorem writeWords_returns {points : Nat} (hlen : 21 + points * 2 ≤ request.length)
    (area : String) (startAddr : UInt32) :
    (Watched.writeWords beyond m request area startAddr points).Returns
      (writeWords m area startAddr points request) := by
  refine .foldl (fun m i hi => ?_) m
  have hi := List.mem_range.mp hi
  exact .bind (.loadLe16 beyond (by omega)) (.pure _)

theorem writeBits_returns {points : Nat} (hlen : 21 + (points + 1) / 2 ≤ request.length)
    (area : String) (startAddr : UInt32) :
    (Watched.writeBits beyond m request area startAddr points).Returns
      (writeBits m area startAddr points request) := by
  refine .foldl (fun m i hi => ?_) m
  have hi := List.mem_range.mp hi
  have hflag : flagAt (request.drop 21) i =
      Watched.flagOf (request.getD (21 + i / 2) 0) i := by
    rw [flagAt, Bytes.getD_drop, Watched.flagOf]
  rw [hflag]
  exact .bind (.load beyond (by omega)) (.pure _)

theorem refuse_returns (m : PlcMemory) (endCode : UInt16) :
    (Watched.refuse m endCode).Returns (m, makeErrorResponse endCode) :=
  .bind (makeErrorResponse_returns endCode) (.pure _)

theorem answer_returns (hlen : 7 ≤ request.length) {data : Logged (List UInt8)}
    {respData : List UInt8} (h : data.Returns respData) :
    (Watched.answer beyond m request data).Returns (m, respond request respData) :=
  .bind h (.bind (respond_returns beyond hlen respData) (.pure _))

theorem acknowledge_returns (hlen : 7 ≤ request.length) {write : Logged PlcMemory}
    {m' : PlcMemory} (h : write.Returns m') :
    (Watched.acknowledge beyond request write).Returns
      (m', respond request (leBytes 0x0000)) :=
  .bind h (.bind success_returns (.bind (respond_returns beyond hlen _) (.pure _)))

/-- Whatever is asked, the server stays inside the request and its own buffers. -/
theorem processRequest_returns (m : PlcMemory) (request : List UInt8) :
    (Watched.processRequest beyond m request).Returns (processRequest m request) := by
  refine .ite (fun _ => refuse_returns m _) fun hlen => ?_
  refine .bind (.loadLe16 beyond (by omega)) (.bind (.loadLe16 beyond (by omega)) ?_)
  refine .bind (.load beyond (by omega)) (.bind (.load beyond (by omega)) ?_)
  refine .bind (.load beyond (by omega)) (.bind (.load beyond (by omega)) ?_)
  refine .bind (.loadLe16 beyond (by omega)) ?_
  have hseven : 7 ≤ request.length := by omega
  refine .ite (fun _ => ?_) fun _ => .ite (fun _ => ?_) fun _ => refuse_returns m _
  · refine .ite (fun _ => ?_) fun _ => .ite (fun _ => ?_) fun _ => refuse_returns m _
    · refine .ite (fun _ => refuse_returns m _) fun _ => ?_
      exact answer_returns beyond hseven (readWords_returns m _ _ _)
    · refine .ite (fun _ => refuse_returns m _) fun _ => ?_
      exact answer_returns beyond hseven (readBits_returns m _ _ _)
  · refine .ite (fun _ => ?_) fun _ => .ite (fun _ => ?_) fun _ => refuse_returns m _
    · refine .ite (fun _ => refuse_returns m _) fun _ => ?_
      refine .ite (fun _ => refuse_returns m _) fun hwhole => ?_
      exact acknowledge_returns beyond hseven (writeWords_returns beyond (by omega) _ _)
    · refine .ite (fun _ => refuse_returns m _) fun _ => ?_
      refine .ite (fun _ => refuse_returns m _) fun hwhole => ?_
      exact acknowledge_returns beyond hseven (writeBits_returns beyond (by omega) _ _)

end Watched

end McServer

end VPlc
