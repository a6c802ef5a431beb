import Mathlib.Data.List.GetD
import VPlc.Bytes.Word

/-!
# Byte strings on the wire

Words and bits at a place in a byte string, and the byte strings that carry
given ones. A word is read from an offset, in either byte order; a bit is
numbered through the whole string, eight to a byte, the lowest first. A string
is put together from pieces, so the laws come in two kinds: what an offset finds
in a concatenation, and what it finds in a piece built word by word or bit by
bit.
-/

namespace Bytes

/-! ## Reading at an offset -/

def be16 (bs : List UInt8) (i : Nat) : UInt16 :=
  word (bs.getD i 0) (bs.getD (i + 1) 0)

def le16 (bs : List UInt8) (i : Nat) : UInt16 :=
  word (bs.getD (i + 1) 0) (bs.getD i 0)

def le24 (bs : List UInt8) (i : Nat) : UInt32 :=
  (bs.getD i 0).toUInt32 ||| ((bs.getD (i + 1) 0).toUInt32 <<< 8) |||
    ((bs.getD (i + 2) 0).toUInt32 <<< 16)

def bitAt (bs : List UInt8) (k : Nat) : Bool := bit (bs.getD (k / 8) 0) (k % 8)

def beBytes (w : UInt16) : List UInt8 := [high w, low w]

def leBytes (w : UInt16) : List UInt8 := [low w, high w]

@[simp] theorem length_beBytes (w : UInt16) : (beBytes w).length = 2 := rfl
@[simp] theorem length_leBytes (w : UInt16) : (leBytes w).length = 2 := rfl

/-! ## Offsets in a concatenation -/

section Append

variable (a b : List UInt8) (w : UInt16) {i : Nat}

theorem le16_append_left (h : i + 1 < a.length) : le16 (a ++ b) i = le16 a i := by
  rw [le16, le16, List.getD_append _ _ _ _ h, List.getD_append _ _ _ _ (by omega)]

theorem be16_append_right (h : a.length ≤ i) :
    be16 (a ++ b) i = be16 b (i - a.length) := by
  rw [be16, be16, List.getD_append_right _ _ _ _ h,
    List.getD_append_right _ _ _ _ (by omega), Nat.sub_add_comm h]

theorem le16_append_right (h : a.length ≤ i) :
    le16 (a ++ b) i = le16 b (i - a.length) := by
  rw [le16, le16, List.getD_append_right _ _ _ _ (by omega),
    List.getD_append_right _ _ _ _ h, Nat.sub_add_comm h]

theorem be16_beBytes : be16 (beBytes w ++ b) 0 = w := word_high_low w

theorem le16_leBytes : le16 (leBytes w ++ b) 0 = w := word_high_low w

theorem be16_at (h : a.length = i) : be16 (a ++ (beBytes w ++ b)) i = w := by
  rw [be16_append_right _ _ (by omega), h, Nat.sub_self, be16_beBytes]

theorem le16_at (h : a.length = i) : le16 (a ++ (leBytes w ++ b)) i = w := by
  rw [le16_append_right _ _ (by omega), h, Nat.sub_self, le16_leBytes]

theorem getD_drop (n i : Nat) : (a.drop n).getD i 0 = a.getD (n + i) 0 := by
  rw [List.getD_eq_getElem?_getD, List.getElem?_drop, List.getD_eq_getElem?_getD]

theorem be16_drop (n i : Nat) : be16 (a.drop n) i = be16 a (n + i) := by
  rw [be16, be16, getD_drop, getD_drop, Nat.add_assoc]

theorem le16_drop (n i : Nat) : le16 (a.drop n) i = le16 a (n + i) := by
  rw [le16, le16, getD_drop, getD_drop, Nat.add_assoc]

theorem leBytes_le16 (h : i + 2 ≤ a.length) :
    (a.drop i).take 2 = leBytes (le16 a i) := by
  have hfst : a.drop i = a.getD i 0 :: a.drop (i + 1) := by
    rw [List.drop_eq_getElem_cons (by omega), List.getD_eq_getElem _ _ (by omega)]
  have hsnd : a.drop (i + 1) = a.getD (i + 1) 0 :: a.drop (i + 2) := by
    rw [List.drop_eq_getElem_cons (by omega), List.getD_eq_getElem _ _ (by omega)]
  rw [hfst, hsnd, le16, leBytes, low_word, high_word]
  rfl

theorem drop_eq_field (n : Nat) (h : i + 2 + n ≤ a.length) :
    a.drop i = leBytes (le16 a i) ++ ((a.drop (i + 2)).take n ++ a.drop (i + 2 + n)) := by
  have hrest : (a.drop (i + 2)).take n ++ a.drop (i + 2 + n) = a.drop (i + 2) := by
    rw [← List.drop_drop (i := n), List.take_append_drop]
  rw [← leBytes_le16 a (by omega), hrest, ← List.drop_drop (i := 2), List.take_append_drop]

end Append

theorem le16_of_prefix {a b : List UInt8} {i : Nat} (h : a <+: b) (hi : i + 2 ≤ a.length) :
    le16 a i = le16 b i := by
  obtain ⟨t, rfl⟩ := h
  rw [le16_append_left _ _ (by omega)]

/-! ## Strings of words -/

/-- Words one after another, by a law of one of them. -/
theorem read_flatMap {bytes : UInt16 → List UInt8} {read : List UInt8 → Nat → UInt16}
    (hlen : ∀ w, (bytes w).length = 2)
    (hhead : ∀ w rest, read (bytes w ++ rest) 0 = w)
    (htail : ∀ a b i, a.length ≤ i → read (a ++ b) i = read b (i - a.length))
    {ws : List UInt16} {k : Nat} (h : k < ws.length) (rest : List UInt8) :
    read (ws.flatMap bytes ++ rest) (2 * k) = ws.getD k 0 := by
  induction ws generalizing k with
  | nil => exact absurd h (Nat.not_lt_zero k)
  | cons w ws ih =>
      rw [List.flatMap_cons, List.append_assoc]
      cases k with
      | zero => exact hhead w _
      | succ k =>
          rw [htail _ _ _ (by rw [hlen]; omega), hlen,
            show 2 * (k + 1) - 2 = 2 * k by omega, ih (Nat.lt_of_succ_lt_succ h)]
          rfl

theorem be16_flatMap {ws : List UInt16} {k : Nat} (h : k < ws.length)
    (rest : List UInt8) : be16 (ws.flatMap beBytes ++ rest) (2 * k) = ws.getD k 0 :=
  read_flatMap length_beBytes (fun w b => be16_beBytes b w)
    (fun a b _ hi => be16_append_right a b hi) h rest

theorem le16_flatMap {ws : List UInt16} {k : Nat} (h : k < ws.length)
    (rest : List UInt8) : le16 (ws.flatMap leBytes ++ rest) (2 * k) = ws.getD k 0 :=
  read_flatMap length_leBytes (fun w b => le16_leBytes b w)
    (fun a b _ hi => le16_append_right a b hi) h rest

theorem length_flatMap_two {bytes : UInt16 → List UInt8}
    (hlen : ∀ w, (bytes w).length = 2) (ws : List UInt16) :
    (ws.flatMap bytes).length = 2 * ws.length := by
  induction ws with
  | nil => rfl
  | cons w ws ih =>
      rw [List.flatMap_cons, List.length_append, hlen, ih, List.length_cons]
      omega

@[simp] theorem length_flatMap_beBytes (ws : List UInt16) :
    (ws.flatMap beBytes).length = 2 * ws.length :=
  length_flatMap_two length_beBytes ws

@[simp] theorem length_flatMap_leBytes (ws : List UInt16) :
    (ws.flatMap leBytes).length = 2 * ws.length :=
  length_flatMap_two length_leBytes ws

theorem flatMap_range_getD (bytes : UInt16 → List UInt8) (ws : List UInt16) :
    ((List.range ws.length).flatMap fun i => bytes (ws.getD i 0)) = ws.flatMap bytes := by
  have hws : (List.range ws.length).map (fun i => ws.getD i 0) = ws := by
    refine List.ext_getElem (by rw [List.length_map, List.length_range]) ?_
    intro i _ hi
    rw [List.getElem_map, List.getElem_range, List.getD_eq_getElem _ _ hi]
  rw [← List.flatMap_map, hws]

theorem flatMap_leBytes_le16 {bs : List UInt8} {n : Nat} (h : 2 * n ≤ bs.length) :
    ((List.range n).flatMap fun i => leBytes (le16 bs (2 * i))) = bs.take (2 * n) := by
  induction n with
  | zero => rfl
  | succ n ih =>
      rw [List.range_succ, List.flatMap_append, ih (by omega), List.flatMap_singleton,
        ← leBytes_le16 bs (by omega), ← List.take_add]
      rfl

/-! ## Strings of bits -/

/-- A byte from its eight bits, or'ed together from the lowest on. -/
def packByte (c : Nat → Bool) : UInt8 :=
  (List.range 8).foldl
    (fun value k => if c k then value ||| (1 <<< UInt8.ofNat k) else value) 0

def packBits (n : Nat) (c : Nat → Bool) : List UInt8 :=
  (List.range n).map fun b => packByte fun k => c (b * 8 + k)

@[simp] theorem length_packBits (n : Nat) (c : Nat → Bool) :
    (packBits n c).length = n := by
  rw [packBits, List.length_map, List.length_range]

theorem bit_packByte {c : Nat → Bool} {k : Nat} (hk : k < 8) :
    bit (packByte c) k = c k := by
  have hloop : ∀ n ≤ 8, bit ((List.range n).foldl
      (fun value k => if c k then value ||| (1 <<< UInt8.ofNat k) else value) 0) k =
        (decide (k < n) && c k) := by
    intro n hn
    induction n with
    | zero => simp [bit]
    | succ n ih =>
        have ih := ih (by omega)
        rw [List.range_succ, List.foldl_append, List.foldl_cons, List.foldl_nil]
        cases hc : c n with
        | false =>
            rw [if_neg Bool.false_ne_true, ih]
            rcases Nat.lt_trichotomy k n with h | rfl | h
            · simp [h, Nat.lt_succ_of_lt h]
            · simp [hc]
            · simp [show ¬ k < n by omega, show ¬ k < n + 1 by omega]
        | true =>
            rw [if_pos rfl]
            show bit (putBit _ n true) k = _
            rw [bit_putBit _ hk (by omega), ih]
            rcases Nat.lt_trichotomy k n with h | rfl | h
            · simp [h, Nat.lt_succ_of_lt h, Nat.ne_of_lt h]
            · simp [hc]
            · simp [show ¬ k < n by omega, show ¬ k < n + 1 by omega,
                show k ≠ n by omega]
  have h := hloop 8 (Nat.le_refl 8)
  rw [decide_eq_true hk, Bool.true_and] at h
  exact h

theorem bitAt_packBits {n : Nat} {c : Nat → Bool} {k : Nat} (h : k < 8 * n) :
    bitAt (packBits n c) k = c k := by
  have hb : k / 8 < (packBits n c).length := by rw [length_packBits]; omega
  have hk : k / 8 * 8 + k % 8 = k := by omega
  rw [bitAt, List.getD_eq_getElem _ _ hb]
  simp only [packBits, List.getElem_map, List.getElem_range]
  rw [bit_packByte (Nat.mod_lt _ (by omega)), hk]

end Bytes
