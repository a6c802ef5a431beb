import Mathlib.Data.Nat.Bitwise

/-!
# Words and bits in bytes

Two bytes as a sixteen-bit word, high byte first, and the bits of one byte. The
operations are written with the shifts and masks a program would use; what is
proved of them is arithmetic. `word` and the pair of `high` and `low` undo each
other, and setting a bit changes that bit and no other.
-/

namespace Bytes

/-! ## Big-endian words -/

/-- The word two bytes spell, high byte first. -/
def word (h l : UInt8) : UInt16 := (h.toUInt16 <<< 8) ||| l.toUInt16
/-- `(w >> 8) & 0xFF`. -/
def high (w : UInt16) : UInt8 := ((w >>> 8) &&& 0xFF).toUInt8
/-- `w & 0xFF`. -/
def low (w : UInt16) : UInt8 := (w &&& 0xFF).toUInt8

theorem toNat_word (h l : UInt8) : (word h l).toNat = h.toNat * 256 + l.toNat := by
  have hh := h.toNat_lt
  have hl := l.toNat_lt
  have hshift : h.toNat <<< 8 % 2 ^ 16 = h.toNat <<< 8 := by
    rw [Nat.shiftLeft_eq]; omega
  simp only [word, UInt16.toNat_or, UInt16.toNat_shiftLeft, UInt8.toNat_toUInt16]
  show h.toNat <<< 8 % 2 ^ 16 ||| l.toNat = _
  rw [hshift, ← Nat.shiftLeft_add_eq_or_of_lt (by omega), Nat.shiftLeft_eq]

theorem toNat_high (w : UInt16) : (high w).toNat = w.toNat / 256 := by
  have hw := w.toNat_lt
  simp only [high, UInt16.toNat_toUInt8, UInt16.toNat_and, UInt16.toNat_shiftRight]
  show ((w.toNat >>> 8) &&& (2 ^ 8 - 1)) % 2 ^ 8 = _
  rw [Nat.and_two_pow_sub_one_eq_mod, Nat.shiftRight_eq_div_pow]
  omega

theorem toNat_low (w : UInt16) : (low w).toNat = w.toNat % 256 := by
  simp only [low, UInt16.toNat_toUInt8, UInt16.toNat_and]
  show (w.toNat &&& (2 ^ 8 - 1)) % 2 ^ 8 = _
  rw [Nat.and_two_pow_sub_one_eq_mod]
  omega

theorem high_word (h l : UInt8) : high (word h l) = h := by
  have hl := l.toNat_lt
  refine UInt8.toNat_inj.mp ?_
  rw [toNat_high, toNat_word]
  omega

theorem low_word (h l : UInt8) : low (word h l) = l := by
  have hl := l.toNat_lt
  refine UInt8.toNat_inj.mp ?_
  rw [toNat_low, toNat_word]
  omega

theorem word_high_low (w : UInt16) : word (high w) (low w) = w := by
  refine UInt16.toNat_inj.mp ?_
  rw [toNat_word, toNat_high, toNat_low]
  omega

/-- A word as its two bytes, and back. -/
def split (w : UInt16) : UInt8 × UInt8 := (high w, low w)

def join (p : UInt8 × UInt8) : UInt16 := word p.1 p.2

@[simp] theorem split_join (p : UInt8 × UInt8) : split (join p) = p :=
  Prod.ext (high_word p.1 p.2) (low_word p.1 p.2)

@[simp] theorem join_split (w : UInt16) : join (split w) = w := word_high_low w

/-! ## Bits -/

def bit (b : UInt8) (k : Nat) : Bool := b.toNat.testBit k

/-- `b |= 1 << k` or `b &= ~(1 << k)`. -/
def putBit (b : UInt8) (k : Nat) (v : Bool) : UInt8 :=
  if v then b ||| (1 <<< UInt8.ofNat k) else b &&& ~~~(1 <<< UInt8.ofNat k)

theorem toNat_mask {k : Nat} (hk : k < 8) :
    ((1 : UInt8) <<< UInt8.ofNat k).toNat = 2 ^ k := by
  have hcases : ∀ k : Fin 8, ((1 : UInt8) <<< UInt8.ofNat k).toNat = 2 ^ k.val := by
    decide
  exact hcases ⟨k, hk⟩

theorem bit_putBit (b : UInt8) {j k : Nat} (hj : j < 8) (hk : k < 8)
    (v : Bool) : bit (putBit b k v) j = if j = k then v else bit b j := by
  have hmask : (2 ^ k).testBit j = decide (j = k) := by
    rw [Nat.testBit_two_pow, decide_eq_decide]
    exact eq_comm
  cases v with
  | true =>
      simp only [putBit, bit, if_true, UInt8.toNat_or, Nat.testBit_or,
        toNat_mask hk, hmask]
      by_cases h : j = k <;> simp [h]
  | false =>
      have hlt : 2 ^ k < 2 ^ 8 := Nat.pow_lt_pow_right (by omega) hk
      have hnot : (2 ^ 8 - 1 - 2 ^ k).testBit j = !decide (j = k) := by
        rw [Nat.sub_sub, Nat.add_comm 1, Nat.testBit_two_pow_sub_succ hlt, hmask]
        simp [hj]
      simp only [putBit, bit, Bool.false_eq_true, if_false, UInt8.toNat_and,
        Nat.testBit_and, UInt8.toNat_not, toNat_mask hk]
      show (b.toNat.testBit j && (2 ^ 8 - 1 - 2 ^ k).testBit j) = _
      rw [hnot]
      by_cases h : j = k <;> simp [h]

theorem ext_bits {a b : UInt8} (h : ∀ k, k < 8 → bit a k = bit b k) : a = b := by
  refine UInt8.toNat_inj.mp (Nat.eq_of_testBit_eq fun k => ?_)
  by_cases hk : k < 8
  · exact h k hk
  · have hpow : 2 ^ 8 ≤ 2 ^ k := Nat.pow_le_pow_right (by omega) (by omega)
    rw [Nat.testBit_lt_two_pow (lt_of_lt_of_le a.toNat_lt hpow),
      Nat.testBit_lt_two_pow (lt_of_lt_of_le b.toNat_lt hpow)]

end Bytes
