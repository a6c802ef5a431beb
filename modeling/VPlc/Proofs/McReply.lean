import VPlc.Proofs.McSpec

/-!
# The length field of an MC reply

A reply says in two bytes how much of it is still to come, and a client takes
the next reply to begin there. The field is the size of the data narrowed to
sixteen bits, and nothing bounds the number of points a word read may ask for:
from 32767 of them on the data are 65536 bytes or more (`mc_reply_delimited`).
-/

namespace VPlc

open Bytes (leBytes le16)

namespace McServer

/-- A reply that tells a client where it ends. -/
structure Delimited (reply : List UInt8) : Prop where
  subheader : reply.take 2 = [0xD0, 0x00]
  length : (le16 reply 7).toNat + 9 = reply.length

/-- A read of words, so many that their bytes overflow the length field. -/
structure LongRead (request : List UInt8) : Prop where
  whole : 21 ≤ request.length
  command : le16 request 11 = 0x0401
  subcommand : le16 request 13 = 0x0000
  device : (wordArea? (request.getD 18 0)).isSome = true
  points : 32767 ≤ points request

theorem delimited_makeErrorResponse (code : UInt16) : Delimited (makeErrorResponse code) := by
  have hfield : le16 (makeErrorResponse code) 7 = 2 := by
    rw [makeErrorResponse, List.append_assoc]
    exact Bytes.le16_at _ _ _ rfl
  exact ⟨rfl, by rw [hfield]; rfl⟩

theorem le16_respond (request data : List UInt8) :
    le16 (respond request data) 7 = UInt16.ofNat data.length := by
  rw [respond, List.append_assoc]
  exact Bytes.le16_at _ _ _ rfl

theorem length_respond (request data : List UInt8) :
    (respond request data).length = 9 + data.length := by
  simp only [respond, List.length_append, List.length_cons, List.length_nil,
    Bytes.length_leBytes]

theorem delimited_respond (request data : List UInt8) :
    Delimited (respond request data) ↔ data.length < 65536 := by
  constructor
  · rintro ⟨-, h⟩
    rw [le16_respond, UInt16.toNat_ofNat', length_respond] at h
    omega
  · intro h
    refine ⟨rfl, ?_⟩
    rw [le16_respond, length_respond, UInt16.toNat_ofNat_of_lt' h, Nat.add_comm]

theorem length_readData (m : PlcMemory) (a : Area) (start n : Nat) :
    (readData m a start n).length = if a.isBit then (n + 1) / 2 else 2 * n := by
  unfold readData
  split
  · exact Bytes.length_packFlags n _
  · induction n with
    | zero => rfl
    | succ n ih =>
        rw [List.range_succ, List.flatMap_append, List.length_append, ih,
          List.flatMap_singleton, Bytes.length_leBytes]
        omega

theorem isBit_device {request : List UInt8} {a : Area} (h : device? request = some a) :
    a.isBit = false ↔
      le16 request 13 = 0x0000 ∧ (wordArea? (request.getD 18 0)).isSome = true := by
  unfold device? at h
  split at h
  · next hsub =>
      rw [h]
      exact ⟨fun _ => ⟨hsub, rfl⟩, fun _ => (namesWords h).isBit⟩
  split at h
  · next hsub _ =>
      have hbit := (namesBits h).isBit
      exact ⟨fun hword => Bool.noConfusion (hbit.symm.trans hword), fun hw => absurd hw.1 hsub⟩
  · cases h

section Replies

variable {m : PlcMemory} {request : List UInt8} {a : Area}

theorem LongRead.device?_ne (h : LongRead request) : device? request ≠ none := by
  intro hnone
  have hdevice := h.device
  rw [device?, if_pos h.subcommand] at hnone
  rw [hnone] at hdevice
  cases hdevice

theorem delimited_unknown (ha : device? request = none) :
    Delimited (processRequest m request).2 := by
  obtain ⟨code, -, hreply⟩ := processRequest_unknown (m := m) ha
  rw [hreply]
  exact delimited_makeErrorResponse code

theorem delimited_write (hlen : 21 ≤ request.length) (hwrite : le16 request 11 = 0x1401)
    (ha : device? request = some a) : Delimited (processRequest m request).2 := by
  rw [processRequest_write hlen hwrite ha]
  split
  · exact delimited_makeErrorResponse _
  · exact (delimited_respond _ _).mpr (by decide)

theorem delimited_read (hlen : 21 ≤ request.length) (hread : le16 request 11 = 0x0401)
    (ha : device? request = some a) :
    Delimited (processRequest m request).2 ↔ ¬ LongRead request := by
  have hpoints : points request < 65536 := (le16 request 19).toNat_lt
  rw [processRequest_read hlen hread ha, delimited_respond, List.length_append,
    Bytes.length_leBytes, length_readData]
  cases hbit : a.isBit with
  | true =>
      refine iff_of_true ?_ fun h => ?_
      · rw [if_pos rfl]
        omega
      · rw [(isBit_device ha).mpr ⟨h.subcommand, h.device⟩] at hbit
        cases hbit
  | false =>
      obtain ⟨hsub, hdevice⟩ := (isBit_device ha).mp hbit
      rw [if_neg Bool.false_ne_true]
      refine ⟨fun h hlong => ?_, fun h => ?_⟩
      · have := hlong.points
        omega
      · by_contra hbig
        exact h ⟨hlen, hread, hsub, hdevice, by omega⟩

end Replies

/-- The length field is right for every request but the long reads. -/
theorem mc_reply_delimited (m : PlcMemory) (request : List UInt8) :
    Delimited (processRequest m request).2 ↔ ¬ LongRead request := by
  by_cases hlen : request.length < 21
  · rw [processRequest, if_pos hlen]
    refine iff_of_true (delimited_makeErrorResponse _) fun h => ?_
    have := h.whole
    omega
  have hlen : 21 ≤ request.length := by omega
  cases ha : device? request with
  | none => exact iff_of_true (delimited_unknown ha) fun h => h.device?_ne ha
  | some a =>
      by_cases hread : le16 request 11 = 0x0401
      · exact delimited_read hlen hread ha
      have hshort : ¬ LongRead request := fun h => hread h.command
      by_cases hwrite : le16 request 11 = 0x1401
      · exact iff_of_true (delimited_write hlen hwrite ha) hshort
      · simp only [processRequest, if_neg (show ¬ request.length < 21 by omega),
          if_neg hread, if_neg hwrite]
        exact iff_of_true (delimited_makeErrorResponse _) hshort

/-- A read of 32767 words from D0. -/
def longRead : List UInt8 :=
  [0x50, 0, 0, 0xFF, 0xFF, 0x03, 0, 12, 0, 16, 0, 0x01, 0x04, 0x00, 0x00, 0, 0, 0, 0xA8, 0xFF, 0x7F]

/-- Its reply says that nothing follows, and 65536 bytes do. -/
theorem mc_reply_not_delimited :
    (processRequest PlcMemory.default longRead).2.length = 9 + 65536 ∧
      le16 (processRequest PlcMemory.default longRead).2 7 = 0 ∧
      ¬ Delimited (processRequest PlcMemory.default longRead).2 := by
  have hpoints : points longRead = 32767 := rfl
  obtain ⟨data, hdata⟩ : ∃ data,
      leBytes 0x0000 ++ readData PlcMemory.default .mcD (head longRead) (points longRead) = data :=
    ⟨_, rfl⟩
  have hlength : data.length = 65536 := by
    rw [← hdata, List.length_append, length_readData, Bytes.length_leBytes, hpoints]
    rfl
  have hreply := @processRequest_read PlcMemory.default longRead .mcD (by decide) rfl rfl
  rw [hreply, hdata, delimited_respond, length_respond, le16_respond, hlength]
  exact ⟨rfl, rfl, by decide⟩

end McServer

end VPlc
