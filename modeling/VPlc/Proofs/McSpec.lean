import VPlc.Core.Block
import VPlc.Mc.Server

/-!
# What an MC batch command does

The server knows its devices by code, the store by name, and the two tables have
to meet: `wordArea?` and `bitArea?` say which area a code stands for, and
`NamesWords` and `NamesBits` that the name the server looks up leads there. From
then on a batch write is a loop over cells of one area, at indices taken modulo
65536 (`processRequest_write`), and a batch read one over the same cells.

As long as the run of points lies inside the device the modulus does nothing and
the write does what it acknowledges. Past the end nothing is checked: the store
drops the point, or the narrowed index finds another cell, and the reply is the
same (`mc_write_truthful_iff`).
-/

namespace VPlc

open Bytes (flagAt flagByte leBytes le16 le24 packFlags)
open PlcMemory (Stored)

namespace McServer

/-! ## Devices -/

/-- The word devices. -/
def wordArea? (code : UInt8) : Option Area :=
  if code = 0xA8 then some .mcD
  else if code = 0xB4 then some .mcW
  else if code = 0xAF then some .mcR
  else if code = 0xB0 then some .mcZR
  else if code = 0xA9 then some .mcSD
  else none

/-- The bit devices. -/
def bitArea? (code : UInt8) : Option Area :=
  if code = 0x9C then some .mcX
  else if code = 0x9D then some .mcY
  else if code = 0x90 then some .mcM
  else if code = 0x92 then some .mcL
  else if code = 0xA0 then some .mcB
  else if code = 0x93 then some .mcF
  else if code = 0x91 then some .mcSM
  else none

/-- The store's name for an area of words. -/
structure NamesWords (name : String) (a : Area) : Prop where
  nonempty : name.isEmpty = false
  isBit : a.isBit = false
  size : ∀ m : PlcMemory, m.size a = 1024
  read : ∀ (m : PlcMemory) i, m.readMCWord name i = m.get a i.toNat
  write : ∀ (m : PlcMemory) i v, m.writeMCWord name i v = m.set a i.toNat v

/-- The store's name for an area of bits. -/
structure NamesBits (name : String) (a : Area) : Prop where
  nonempty : name.isEmpty = false
  isBit : a.isBit = true
  size : ∀ m : PlcMemory, m.size a = 2048
  read : ∀ (m : PlcMemory) i, (m.readMCBit name i).toUInt16 = m.get a i.toNat
  write : ∀ (m : PlcMemory) i v, m.writeMCBit name i v = m.set a i.toNat v.toUInt16

theorem namesWords {code : UInt8} {a : Area} (h : wordArea? code = some a) :
    NamesWords (getMCWordAreaName code) a := by
  unfold wordArea? at h
  unfold getMCWordAreaName
  repeat' split at h
  all_goals cases h
  all_goals
    simp only [*, if_true]
    exact ⟨by decide, rfl, fun _ => rfl, fun m i => by simp [PlcMemory.readMCWord, PlcMemory.get],
      fun m i v => by simp [PlcMemory.writeMCWord, PlcMemory.set]⟩

theorem namesBits {code : UInt8} {a : Area} (h : bitArea? code = some a) :
    NamesBits (getMCBitAreaName code) a := by
  unfold bitArea? at h
  unfold getMCBitAreaName
  repeat' split at h
  all_goals cases h
  all_goals
    simp only [*, if_true]
    exact ⟨by decide, rfl, fun _ => rfl, fun m i => by simp [PlcMemory.readMCBit, PlcMemory.get],
      fun m i v => by
        simp only [PlcMemory.set, PlcMemory.decide_toUInt16_ne]
        simp [PlcMemory.writeMCBit]⟩

theorem wordName_of_none {code : UInt8} (h : wordArea? code = none) :
    getMCWordAreaName code = "" := by
  unfold wordArea? at h
  unfold getMCWordAreaName
  repeat' split at h
  all_goals first | (cases h; done) | simp only [*, if_false]

theorem bitName_of_none {code : UInt8} (h : bitArea? code = none) :
    getMCBitAreaName code = "" := by
  unfold bitArea? at h
  unfold getMCBitAreaName
  repeat' split at h
  all_goals first | (cases h; done) | simp only [*, if_false]

/-! ## Requests -/

section Fields

variable (request : List UInt8)

/-- The head device number, all three bytes of it. -/
def head : Nat := (le24 request 15).toNat

def points : Nat := (le16 request 19).toNat

/-- The area a request addresses, by its unit and its device code. -/
def device? : Option Area :=
  if le16 request 13 = 0x0000 then wordArea? (request.getD 18 0)
  else if le16 request 13 = 0x0001 then bitArea? (request.getD 18 0)
  else none

def payload : List UInt8 := request.drop 21

/-- How many bytes of it the request's points take. -/
def payloadLength : Nat :=
  if le16 request 13 = 0x0000 then 2 * points request else (points request + 1) / 2

def value (i : Nat) : UInt16 :=
  if le16 request 13 = 0x0000 then le16 (payload request) (2 * i)
  else (flagAt (payload request) i).toUInt16

end Fields

def endCode (reply : List UInt8) : UInt16 := le16 reply 9

theorem endCode_respond (request : List UInt8) (code : UInt16) (data : List UInt8) :
    endCode (respond request (leBytes code ++ data)) = code :=
  Bytes.le16_at _ _ _ rfl

theorem endCode_makeErrorResponse (code : UInt16) :
    endCode (makeErrorResponse code) = code := by
  have h := Bytes.le16_at ([0xD0, 0x00, 0x00, 0xFF, 0xFF, 0x03, 0x00] ++ leBytes 2) []
    code (i := 9) rfl
  rwa [List.append_nil] at h

theorem toNat_pointIndex (startAddr : UInt32) (i : Nat) :
    (pointIndex startAddr i).toNat = (startAddr.toNat + i) % 65536 := by
  rw [pointIndex, UInt32.toNat_toUInt16, UInt32.toNat_add, UInt32.toNat_ofNat']
  omega

/-- Points from `start` on set one after another, their numbers modulo 65536. -/
def storePoints (m : PlcMemory) (a : Area) (start n : Nat) (v : Nat → UInt16) :
    PlcMemory :=
  (List.range n).foldl (fun m i => m.set a ((start + i) % 65536) (v i)) m

/-- The data of a read reply. -/
def readData (m : PlcMemory) (a : Area) (start n : Nat) : List UInt8 :=
  if a.isBit then packFlags n fun i => decide (m.get a ((start + i) % 65536) ≠ 0)
  else (List.range n).flatMap fun i => leBytes (m.get a ((start + i) % 65536))

section Process

variable {m : PlcMemory} {request : List UInt8} {a : Area}

theorem processRequest_write (hlen : 21 ≤ request.length)
    (hcommand : le16 request 11 = 0x1401) (ha : device? request = some a) :
    processRequest m request =
      if request.length < 21 + payloadLength request then
        (m, makeErrorResponse 0xC051)
      else
        (storePoints m a (head request) (points request) (value request),
          respond request (leBytes 0x0000)) := by
  have hread : ¬ ((0x1401 : UInt16) = 0x0401) := by decide
  unfold device? at ha
  simp only [processRequest, if_neg (Nat.not_lt.mpr hlen), hcommand, if_neg hread,
    if_true]
  split at ha
  · next hsub =>
      obtain ⟨hname, hbit, -, -, hwrite⟩ := namesWords ha
      have hloop : writeWords m (getMCWordAreaName (request.getD 18 0))
          (le24 request 15) (points request) request =
            storePoints m a (head request) (points request) (value request) := by
        simp only [writeWords, storePoints, hwrite, toNat_pointIndex, value, if_pos hsub,
          payload, Bytes.le16_drop, Nat.mul_comm, head]
      rw [if_pos hsub, hname, if_neg Bool.false_ne_true, payloadLength, if_pos hsub]
      rw [Nat.mul_comm 2, ← hloop]
      rfl
  split at ha
  · next hsub hsub1 =>
      obtain ⟨hname, hbit, -, -, hwrite⟩ := namesBits ha
      have hloop : writeBits m (getMCBitAreaName (request.getD 18 0))
          (le24 request 15) (points request) request =
            storePoints m a (head request) (points request) (value request) := by
        simp only [writeBits, storePoints, hwrite, toNat_pointIndex, value, if_neg hsub,
          payload, head]
      rw [if_neg hsub, if_pos hsub1, hname, if_neg Bool.false_ne_true, payloadLength,
        if_neg hsub, ← hloop]
      rfl
  · cases ha

/-- A batch read. -/
theorem processRequest_read (hlen : 21 ≤ request.length)
    (hcommand : le16 request 11 = 0x0401) (ha : device? request = some a) :
    processRequest m request =
      (m, respond request
        (leBytes 0x0000 ++ readData m a (head request) (points request))) := by
  unfold device? at ha
  simp only [processRequest, if_neg (Nat.not_lt.mpr hlen), hcommand, if_true]
  split at ha
  · next hsub =>
      obtain ⟨hname, hbit, -, hread, -⟩ := namesWords ha
      have hdata : readWords m (getMCWordAreaName (request.getD 18 0)) (le24 request 15)
          (points request) = leBytes 0x0000 ++ readData m a (head request) (points request) := by
        simp only [readWords, readData, hbit, hread, toNat_pointIndex, head,
          Bool.false_eq_true, if_false]
      rw [if_pos hsub, hname, if_neg Bool.false_ne_true, ← hdata]
      rfl
  split at ha
  · next hsub hsub1 =>
      obtain ⟨hname, hbit, -, hread, -⟩ := namesBits ha
      have hdata : readBits m (getMCBitAreaName (request.getD 18 0)) (le24 request 15)
          (points request) = leBytes 0x0000 ++ readData m a (head request) (points request) := by
        simp only [readBits, readData, hbit, if_true, ← toNat_pointIndex, head, ← hread,
          PlcMemory.decide_toUInt16_ne]
      rw [if_neg hsub, if_pos hsub1, hname, if_neg Bool.false_ne_true, ← hdata]
      rfl
  · cases ha

theorem processRequest_unknown (ha : device? request = none) :
    ∃ code, code ≠ 0 ∧ processRequest m request = (m, makeErrorResponse code) := by
  have hword : le16 request 13 = 0x0000 →
      (getMCWordAreaName (request.getD 18 0)).isEmpty = true := by
    intro hsub
    rw [device?, if_pos hsub] at ha
    rw [wordName_of_none ha]
    rfl
  have hbit : ¬ le16 request 13 = 0x0000 → le16 request 13 = 0x0001 →
      (getMCBitAreaName (request.getD 18 0)).isEmpty = true := by
    intro hsub hsub1
    rw [device?, if_neg hsub, if_pos hsub1] at ha
    rw [bitName_of_none ha]
    rfl
  have hcode : ∀ c c' : Prop, [Decidable c] → [Decidable c'] →
      ∃ code, code ≠ 0 ∧ (if c then (m, makeErrorResponse 0xC05C)
        else if c' then (m, makeErrorResponse 0xC05C) else (m, makeErrorResponse 0xC051)) =
          (m, makeErrorResponse code) := by
    intro c c' _ _
    split
    · exact ⟨0xC05C, by decide, rfl⟩
    split
    · exact ⟨0xC05C, by decide, rfl⟩
    · exact ⟨0xC051, by decide, rfl⟩
  by_cases hlen : request.length < 21
  · exact ⟨0xC051, by decide, by rw [processRequest, if_pos hlen]⟩
  by_cases hsub : le16 request 13 = 0x0000
  · simp only [processRequest, if_neg hlen, if_pos hsub, if_pos (hword hsub)]
    exact hcode _ _
  by_cases hsub1 : le16 request 13 = 0x0001
  · simp only [processRequest, if_neg hlen, if_neg hsub, if_pos hsub1, if_pos (hbit hsub hsub1)]
    exact hcode _ _
  · simp only [processRequest, if_neg hlen, if_neg hsub, if_neg hsub1, ite_self]
    exact ⟨0xC051, by decide, rfl⟩

/-- A request that is answered with end code zero names a device, and its
command is one of the two. -/
theorem of_endCode_zero (h : endCode (processRequest m request).2 = 0) :
    21 ≤ request.length ∧ (le16 request 11 = 0x0401 ∨ le16 request 11 = 0x1401) ∧
      ∃ a, device? request = some a := by
  have hdevice : ∃ a, device? request = some a := by
    refine Option.ne_none_iff_exists'.mp fun hnone => ?_
    obtain ⟨code, hcode, hreply⟩ := processRequest_unknown (m := m) hnone
    rw [hreply, endCode_makeErrorResponse] at h
    exact hcode h
  have hrefused : processRequest m request ≠ (m, makeErrorResponse 0xC051) := by
    intro hreply
    rw [hreply, endCode_makeErrorResponse] at h
    exact absurd h (by decide)
  have hlen : 21 ≤ request.length :=
    Nat.le_of_not_lt fun hlt => hrefused (if_pos hlt)
  refine ⟨hlen, ?_, hdevice⟩
  by_contra hno
  rw [not_or] at hno
  refine hrefused ?_
  simp only [processRequest, if_neg (Nat.not_lt.mpr hlen), if_neg hno.1, if_neg hno.2]

/-- An error reply is the whole effect of the request it answers. -/
theorem unchanged_of_error (h : endCode (processRequest m request).2 ≠ 0) :
    (processRequest m request).1 = m := by
  cases ha : device? request with
  | none =>
      obtain ⟨code, -, hreply⟩ := processRequest_unknown (m := m) ha
      rw [hreply]
  | some a =>
      by_cases hlen : request.length < 21
      · rw [processRequest, if_pos hlen]
      by_cases hwrite : le16 request 11 = 0x1401
      · rw [processRequest_write (by omega) hwrite ha] at h ⊢
        split
        · rfl
        · next hpayload =>
            rw [if_neg hpayload] at h
            exact absurd (endCode_respond request 0 []) h
      by_cases hread : le16 request 11 = 0x0401
      · rw [processRequest_read (by omega) hread ha]
      · simp only [processRequest, if_neg hlen, if_neg hread, if_neg hwrite]

theorem payloadLength_le (hlen : 21 ≤ request.length)
    (hcommand : le16 request 11 = 0x1401) (ha : device? request = some a) :
    endCode (processRequest m request).2 = 0 ↔
      21 + payloadLength request ≤ request.length := by
  rw [processRequest_write hlen hcommand ha]
  split
  · next hshort =>
      have herror : endCode (makeErrorResponse 0xC051) ≠ 0 := by
        rw [endCode_makeErrorResponse]; decide
      exact ⟨fun h => absurd h herror, fun h => absurd hshort (by omega)⟩
  · next hfits =>
      exact ⟨fun _ => by omega, fun _ => endCode_respond request 0 []⟩

theorem size_device (ha : device? request = some a) : m.size a ≤ 2048 := by
  unfold device? at ha
  split at ha
  · rw [(namesWords ha).size]; decide
  split at ha
  · rw [(namesBits ha).size]
  · cases ha

theorem norm_value (ha : device? request = some a) (i : Nat) :
    a.norm (value request i) = value request i := by
  unfold device? at ha
  split at ha
  · exact Area.norm_of_word (namesWords ha).isBit _
  split at ha
  · next hsub _ => rw [value, if_neg hsub, Area.norm_bit (namesBits ha).isBit]
  · cases ha

/-- Inside the device the narrowing of the index does nothing. -/
theorem storePoints_stored (ha : device? request = some a) {start n : Nat}
    (h : start + n ≤ m.size a) :
    Stored m (storePoints m a start n (value request)) a start n (value request) := by
  have hsize := size_device (m := m) ha
  refine (Stored.of_foldl h fun m i hi => ?_).congr fun k _ => norm_value ha k
  rw [Nat.mod_eq_of_lt (by omega)]

end Process

/-! ## Writes -/

/-- What the reply to a write says: the points it names exist and hold the
values, and nothing else has changed. -/
structure Truthful (m m' : PlcMemory) (a : Area) (start n : Nat)
    (v : Nat → UInt16) : Prop where
  stored : ∀ i < n, start + i < m.size a ∧ m'.get a (start + i) = v i
  others : ∀ b j, ¬ (b = a ∧ start ≤ j ∧ j < start + n) → m'.get b j = m.get b j

/-- An acknowledged batch write has happened exactly if it had no points or all
of them lie inside the device. -/
theorem mc_write_truthful_iff (m : PlcMemory) (request : List UInt8)
    (hlen : 21 ≤ request.length) (hcommand : le16 request 11 = 0x1401)
    (hok : endCode (processRequest m request).2 = 0) :
    ∃ a, device? request = some a ∧
      (Truthful m (processRequest m request).1 a (head request) (points request)
        (value request) ↔
          points request = 0 ∨ head request + points request ≤ m.size a) := by
  obtain ⟨-, -, a, ha⟩ := of_endCode_zero hok
  have hpayload := (payloadLength_le hlen hcommand ha).mp hok
  refine ⟨a, ha, ?_⟩
  rw [processRequest_write hlen hcommand ha, if_neg (by omega)]
  constructor
  · intro htrue
    rcases Nat.eq_zero_or_pos (points request) with hzero | hpos
    · exact Or.inl hzero
    · have hlast := (htrue.stored (points request - 1) (by omega)).1
      exact Or.inr (by omega)
  · rintro (hzero | hin)
    · rw [hzero]
      exact ⟨fun i hi => absurd hi (Nat.not_lt_zero i), fun _ _ _ => rfl⟩
    · have hstored := storePoints_stored ha hin
      exact ⟨fun i hi => ⟨by omega, hstored.written i hi⟩, hstored.others⟩

/-- One word, 7, to a device number of `D`: the fixed fields, then the value. -/
def writeD (low mid high : UInt8) : List UInt8 :=
  [0x50, 0, 0, 0xFF, 0xFF, 3, 0, 14, 0, 16, 0, 0x01, 0x14, 0, 0, low, mid, high, 0xA8,
    1, 0, 7, 0]

theorem writeD_accepted {low mid high : UInt8}
    (hcommand : le16 (writeD low mid high) 11 = 0x1401)
    (ha : device? (writeD low mid high) = some .mcD)
    (hpayload : payloadLength (writeD low mid high) = 2) (m : PlcMemory) :
    endCode (processRequest m (writeD low mid high)).2 = 0 := by
  have hlen : (writeD low mid high).length = 23 := rfl
  refine (payloadLength_le (by omega) hcommand ha).mpr ?_
  omega

/-- `D10` is acknowledged and written. -/
theorem mc_write_truthful_D10 :
    Truthful PlcMemory.default (processRequest PlcMemory.default (writeD 10 0 0)).1 .mcD
      10 1 (value (writeD 10 0 0)) := by
  have hdevice : device? (writeD 10 0 0) = some .mcD := by decide
  have hhead : head (writeD 10 0 0) = 10 := by decide
  have hpoints : points (writeD 10 0 0) = 1 := by decide
  obtain ⟨a, ha, hiff⟩ := mc_write_truthful_iff PlcMemory.default (writeD 10 0 0)
    (by decide) (by decide)
    (writeD_accepted (by decide) hdevice (by decide) PlcMemory.default)
  cases hdevice.symm.trans ha
  rw [hhead, hpoints] at hiff
  exact hiff.mpr (Or.inr (by show 11 ≤ 1024; omega))

/-- `D65536` is acknowledged. There is no such cell. -/
theorem mc_write_untruthful_D65536 :
    ¬ ∀ (m : PlcMemory) (request : List UInt8), 21 ≤ request.length →
      le16 request 11 = 0x1401 → endCode (processRequest m request).2 = 0 →
      ∃ a, device? request = some a ∧
        Truthful m (processRequest m request).1 a (head request) (points request)
          (value request) := by
  intro h
  obtain ⟨a, ha, htrue⟩ := h PlcMemory.default (writeD 0 0 1) (by decide) (by decide)
    (writeD_accepted (by decide) (by decide) (by decide) PlcMemory.default)
  have hhead : head (writeD 0 0 1) = 65536 := by decide
  have hpoints : points (writeD 0 0 1) = 1 := by decide
  have hcell := (htrue.stored 0 (by rw [hpoints]; decide)).1
  have hsize := size_device (m := PlcMemory.default) ha
  omega

/-! ## A read after a write -/

/-- A batch read of the block another request names. -/
structure ReadsBlockOf (w r : List UInt8) : Prop where
  length : 21 ≤ r.length
  command : le16 r 11 = 0x0401
  subcommand : le16 r 13 = le16 w 13
  deviceCode : r.getD 18 0 = w.getD 18 0
  head : head r = head w
  points : points r = points w

/-- The data of a write request, as a read should return it: words as they are;
of bits every nibble in use as zero or one, the high one first, and a low one to
spare zero. -/
def ReadsBack (w data : List UInt8) : Prop :=
  if le16 w 13 = 0x0000 then data = (payload w).take (2 * points w)
  else
    data.length = (points w + 1) / 2 ∧
      ∀ j, 2 * j < points w →
        data.getD j 0 = flagByte (flagAt (payload w) (2 * j))
          (decide (2 * j + 1 < points w) && flagAt (payload w) (2 * j + 1))

theorem readsBack_of_stored {m m' : PlcMemory} {w : List UInt8} {a : Area}
    (ha : device? w = some a) (hpayload : payloadLength w ≤ (payload w).length)
    (h : Stored m m' a (head w) (points w) (value w)) :
    ReadsBack w (readData m' a (head w) (points w)) := by
  have hsize := size_device (m := m) ha
  have hin := h.inRange
  have hcell : ∀ i < points w, m'.get a ((head w + i) % 65536) = value w i := by
    intro i hi
    rw [Nat.mod_eq_of_lt (by omega), h.written i hi]
  unfold device? at ha
  split at ha
  · next hsub =>
      rw [payloadLength, if_pos hsub] at hpayload
      rw [ReadsBack, if_pos hsub, readData, (namesWords ha).isBit,
        if_neg Bool.false_ne_true, ← Bytes.flatMap_leBytes_le16 hpayload]
      refine List.flatMap_congr fun i hi => ?_
      rw [hcell i (List.mem_range.mp hi), value, if_pos hsub]
  split at ha
  · next hsub _ =>
      have hflag : ∀ i < points w,
          decide (m'.get a ((head w + i) % 65536) ≠ 0) = flagAt (payload w) i := by
        intro i hi
        rw [hcell i hi, value, if_neg hsub, PlcMemory.decide_toUInt16_ne]
      rw [ReadsBack, if_neg hsub, readData, (namesBits ha).isBit, if_pos rfl]
      refine ⟨Bytes.length_packFlags _ _, fun j hj => ?_⟩
      rw [Bytes.getD_packFlags _ _ hj, hflag _ hj]
      by_cases hlast : 2 * j + 1 < points w
      · rw [hflag _ hlast]
      · rw [decide_eq_false hlast, Bool.false_and, Bool.false_and]
  · cases ha

/-- Errors and reads leave the memory alone. A write inside its device is
acknowledged and changes the block alone, and a read of the block returns what
was written. -/
theorem mc_read_inverts_write :
    (∀ (m : PlcMemory) (request : List UInt8),
      endCode (processRequest m request).2 ≠ 0 → (processRequest m request).1 = m) ∧
    ∀ (m : PlcMemory) (w r : List UInt8) (a : Area),
      21 ≤ w.length → le16 w 11 = 0x1401 → device? w = some a →
      head w + points w ≤ m.size a → payloadLength w ≤ (payload w).length →
      ReadsBlockOf w r →
      let m' := (processRequest m w).1
      endCode (processRequest m w).2 = 0 ∧
        Stored m m' a (head w) (points w) (value w) ∧
        (processRequest m' r).1 = m' ∧
        ∃ data, (processRequest m' r).2 = respond r (leBytes 0x0000 ++ data) ∧
          ReadsBack w data := by
  refine ⟨fun m request => unchanged_of_error,
    fun m w r a hlen hcommand ha hin hpayload hr => ?_⟩
  have hfits : 21 + payloadLength w ≤ w.length := by
    rw [payload, List.length_drop] at hpayload
    omega
  have hdevice : device? r = some a := by
    rw [← ha, device?, device?, hr.subcommand, hr.deviceCode]
  have hwrite := processRequest_write (m := m) hlen hcommand ha
  rw [if_neg (by omega)] at hwrite
  have hstored := storePoints_stored ha hin
  refine ⟨(payloadLength_le hlen hcommand ha).mpr hfits, ?_⟩
  rw [hwrite]
  dsimp only
  rw [processRequest_read hr.length hr.command hdevice, hr.head, hr.points]
  exact ⟨hstored, rfl, _, rfl, readsBack_of_stored ha hpayload hstored⟩

/-- `M5` to `M7` are set on, on and off, spelled 1, F and 0, and the nibble to spare
is A. -/
def writeM : List UInt8 :=
  [0x50, 0, 0, 0xFF, 0xFF, 3, 0, 14, 0, 16, 0, 0x01, 0x14, 1, 0, 5, 0, 0, 0x90, 3, 0, 0x1F, 0x0A]

/-- And asked for. -/
def readM : List UInt8 :=
  [0x50, 0, 0, 0xFF, 0xFF, 3, 0, 12, 0, 16, 0, 0x01, 0x04, 1, 0, 5, 0, 0, 0x90, 3, 0]

/-- The flags come back as 1, 1 and 0. -/
theorem mc_read_inverts_write_threeBits :
    let m' := (processRequest PlcMemory.default writeM).1
    m'.get .mcM 6 = 1 ∧
      ∃ data, (processRequest m' readM).2 = respond readM (leBytes 0x0000 ++ data) ∧
        data.length = 2 ∧ data.getD 0 0 = 0x11 ∧ data.getD 1 0 = 0x00 := by
  have hblock : ReadsBlockOf writeM readM :=
    ⟨by decide, by decide, by decide, by decide, by decide, by decide⟩
  have hin : head writeM + points writeM ≤ PlcMemory.default.size .mcM := by
    show 5 + 3 ≤ 2048
    decide
  obtain ⟨-, hstored, -, data, hreply, hdata⟩ :=
    mc_read_inverts_write.2 PlcMemory.default writeM readM .mcM (by decide) (by decide)
      (by decide) hin (by decide) hblock
  refine ⟨hstored.written 1 (by decide), data, hreply, ?_⟩
  rw [ReadsBack, if_neg (by decide)] at hdata
  exact ⟨hdata.1, hdata.2 0 (by decide), hdata.2 1 (by decide)⟩

end McServer

end VPlc
