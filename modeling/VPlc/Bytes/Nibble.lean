import Mathlib.Data.List.GetD
import VPlc.Bytes.Word

/-!
# Flags in nibbles

Two flags to a byte, the first in the high nibble. Any nibble but zero reads as
set; a byte string is packed by or'ing ones into a string of zeros, so packing
what was read gives every nibble back as zero or one.
-/

namespace Bytes

/-- Flag `i` of a string. -/
def flagAt (bs : List UInt8) (i : Nat) : Bool :=
  if i % 2 = 0 then (bs.getD (i / 2) 0 >>> 4) &&& 0x0F != 0
  else bs.getD (i / 2) 0 &&& 0x0F != 0

/-- Or a one into nibble `i`, if `v` is set. -/
def orFlag (v : Bool) (i : Nat) (b : UInt8) : UInt8 :=
  if i % 2 = 0 then b ||| (if v then 0x10 else 0x00)
  else b ||| (if v then 0x01 else 0x00)

/-- The first `n` flags of `c`. -/
def packFlags (n : Nat) (c : Nat → Bool) : List UInt8 :=
  (List.range n).foldl (fun data i => data.modify (i / 2) (orFlag (c i) i))
    (List.replicate ((n + 1) / 2) 0)

/-- The byte two flags make. -/
def flagByte (h l : Bool) : UInt8 := orFlag l 1 (orFlag h 0 0)

theorem getD_modify {bs : List UInt8} {f : UInt8 → UInt8} {i j : Nat}
    (h : j < bs.length) :
    (bs.modify i f).getD j 0 = if i = j then f (bs.getD j 0) else bs.getD j 0 := by
  rw [List.getD_eq_getElem _ _ (by rwa [List.length_modify]), List.getElem_modify,
    List.getD_eq_getElem _ _ h]

/-- After `t` turns the flags below `t` are in and the others are still zero. -/
theorem packFlags_loop (c : Nat → Bool) (size : Nat) {t j : Nat} (hj : j < size) :
    let data := (List.range t).foldl
      (fun data i => data.modify (i / 2) (orFlag (c i) i)) (List.replicate size 0)
    data.length = size ∧
      data.getD j 0 =
        flagByte (decide (2 * j < t) && c (2 * j)) (decide (2 * j + 1 < t) && c (2 * j + 1)) := by
  induction t with
  | zero => simp [flagByte, orFlag]
  | succ t ih =>
      obtain ⟨hlen, hget⟩ := ih
      simp only [List.range_succ, List.foldl_append, List.foldl_cons, List.foldl_nil]
      refine ⟨by rw [List.length_modify, hlen], ?_⟩
      rw [getD_modify (by rw [hlen]; exact hj), hget]
      by_cases hown : t / 2 = j
      · rw [if_pos hown]
        rcases Nat.mod_two_eq_zero_or_one t with hpar | hpar
        · obtain rfl : t = 2 * j := by omega
          have hlater : ¬ 2 * j + 1 < 2 * j := by omega
          simp [flagByte, orFlag, hlater]
        · obtain rfl : t = 2 * j + 1 := by omega
          have hearlier : decide (2 * j < 2 * j + 1 + 1) = true := decide_eq_true (by omega)
          rw [hearlier]
          simp [flagByte, orFlag]
      · rw [if_neg hown]
        have heven : (2 * j < t + 1) ↔ (2 * j < t) := by omega
        have hodd : (2 * j + 1 < t + 1) ↔ (2 * j + 1 < t) := by omega
        simp only [heven, hodd]

theorem length_packFlags (n : Nat) (c : Nat → Bool) :
    (packFlags n c).length = (n + 1) / 2 := by
  rcases Nat.eq_zero_or_pos n with rfl | hn
  · rfl
  · exact (packFlags_loop c ((n + 1) / 2) (t := n) (j := 0) (by omega)).1

theorem getD_packFlags (n : Nat) (c : Nat → Bool) {j : Nat} (hj : 2 * j < n) :
    (packFlags n c).getD j 0 =
      flagByte (c (2 * j)) (decide (2 * j + 1 < n) && c (2 * j + 1)) := by
  have h := (packFlags_loop c ((n + 1) / 2) (t := n) (j := j) (by omega)).2
  rwa [decide_eq_true hj, Bool.true_and] at h

theorem flagAt_flagByte (h l : Bool) :
    ((flagByte h l >>> 4) &&& 0x0F != 0) = h ∧ (flagByte h l &&& 0x0F != 0) = l := by
  cases h <;> cases l <;> decide

theorem flagAt_packFlags (n : Nat) (c : Nat → Bool) {i : Nat} (hi : i < n) :
    flagAt (packFlags n c) i = c i := by
  rcases Nat.mod_two_eq_zero_or_one i with hpar | hpar
  · obtain ⟨j, rfl⟩ : ∃ j, i = 2 * j := ⟨i / 2, by omega⟩
    rw [flagAt, if_pos hpar, Nat.mul_div_cancel_left _ (by omega), getD_packFlags n c hi,
      (flagAt_flagByte _ _).1]
  · obtain ⟨j, rfl⟩ : ∃ j, i = 2 * j + 1 := ⟨i / 2, by omega⟩
    have hhalf : (2 * j + 1) / 2 = j := by omega
    rw [flagAt, if_neg (by omega), hhalf, getD_packFlags n c (by omega),
      (flagAt_flagByte _ _).2, decide_eq_true hi, Bool.true_and]

end Bytes
