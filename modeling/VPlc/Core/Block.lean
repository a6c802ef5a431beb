import Mathlib.Data.List.GetD
import VPlc.Core.Area

/-!
# Blocks of cells

What a protocol addresses is a run of neighbouring cells of one area.
`Stored m m' a start n v` is what a server that accepted a write of such a run
owes its client: the run is there, it holds the values, and nothing else in the
memory has moved. The block writes of the store meet it, and so does a loop that
writes one cell a turn. The block reads return what `get` sees.
-/

namespace VPlc

namespace PlcMemory

/-- Cells `start..start+n-1` of `a` have come to hold `v 0`, `v 1`, and so on;
every other cell is as it was. -/
structure Stored (m m' : PlcMemory) (a : Area) (start n : Nat)
    (v : Nat → UInt16) : Prop where
  inRange : start + n ≤ m.size a
  written : ∀ k < n, m'.get a (start + k) = v k
  others : ∀ b i, ¬ (b = a ∧ start ≤ i ∧ i < start + n) → m'.get b i = m.get b i
  size : ∀ b, m'.size b = m.size b
  mappings : m'.mappings = m.mappings

namespace Stored

variable {m m' : PlcMemory} {a : Area} {start n : Nat} {v v' : Nat → UInt16}

theorem nil (h : start ≤ m.size a) : Stored m m a start 0 v :=
  ⟨h, fun _ hk => absurd hk (Nat.not_lt_zero _), fun _ _ _ => rfl, fun _ => rfl, rfl⟩

theorem congr (h : Stored m m' a start n v) (hv : ∀ k < n, v k = v' k) :
    Stored m m' a start n v' :=
  ⟨h.inRange, fun k hk => (h.written k hk).trans (hv k hk), h.others, h.size,
    h.mappings⟩

theorem set (h : start < m.size a) (w : UInt16) :
    Stored m (m.set a start w) a start 1 fun _ => a.norm w where
  inRange := h
  written k hk := by
    obtain rfl : k = 0 := by omega
    rw [get_set_same, if_pos ⟨rfl, h⟩]
  others b i hi := by
    rw [get_set, if_neg]
    rintro ⟨rfl, rfl, -⟩
    exact hi ⟨rfl, by omega, by omega⟩
  size b := size_set m a b start w
  mappings := mappings_set m a start w

theorem snoc (h : Stored m m' a start n v) (hlt : start + n < m.size a)
    {w : UInt16} (hw : a.norm w = v n) :
    Stored m (m'.set a (start + n) w) a start (n + 1) v where
  inRange := hlt
  written k hk := by
    rw [get_set_same, h.size]
    by_cases hkn : k = n
    · subst hkn
      rw [if_pos ⟨rfl, hlt⟩, hw]
    · rw [if_neg (by omega), h.written k (by omega)]
  others b i hi := by
    rw [get_set, if_neg, h.others b i]
    · rintro ⟨rfl, hle, hlt'⟩
      exact hi ⟨rfl, hle, by omega⟩
    · rintro ⟨rfl, rfl, -⟩
      exact hi ⟨rfl, by omega, by omega⟩
  size b := by rw [size_set, h.size]
  mappings := by rw [mappings_set, h.mappings]

/-- A loop whose turn `i` writes cell `start + i`. -/
theorem of_foldl {f : PlcMemory → Nat → PlcMemory} {w : Nat → UInt16}
    (hin : start + n ≤ m.size a)
    (hf : ∀ m i, i < n → f m i = m.set a (start + i) (w i)) :
    Stored m ((List.range n).foldl f m) a start n fun k => a.norm (w k) := by
  induction n with
  | zero => exact .nil hin
  | succ n ih =>
      have hstored := ih (by omega) fun m i hi => hf m i (by omega)
      rw [List.range_succ, List.foldl_append, List.foldl_cons, List.foldl_nil,
        hf _ n (by omega)]
      exact hstored.snoc (by omega) rfl

/-- A shorter block was stored; the longer one was too if its other cells
held the right values before. -/
theorem extend_iff {n' : Nat} (h : Stored m m' a start n v) (hle : n ≤ n')
    (hin : start + n' ≤ m.size a) :
    Stored m m' a start n' v ↔ ∀ k, n ≤ k → k < n' → m.get a (start + k) = v k := by
  constructor
  · intro h' k hk hk'
    rw [← h'.written k hk', h.others a (start + k)]
    rintro ⟨-, -, hlt⟩
    omega
  · intro hold
    refine ⟨hin, fun k hk => ?_, fun b i hi => ?_, h.size, h.mappings⟩
    · rcases Nat.lt_or_ge k n with hkn | hkn
      · exact h.written k hkn
      · rw [h.others a (start + k), hold k hkn hk]
        rintro ⟨-, -, hlt⟩
        omega
    · refine h.others b i ?_
      rintro ⟨hb, hge, hlt⟩
      exact hi ⟨hb, hge, by omega⟩

end Stored

/-! ## Block writes of the store -/

theorem size_writeBlock {α : Type} (xs : Array α) (start : Nat) (vs : List α) :
    (writeBlock xs start vs).size = xs.size := by
  induction vs generalizing xs start with
  | nil => rfl
  | cons v vs ih => rw [writeBlock, ih, Array.size_setIfInBounds]

theorem getD_writeBlock_of_out {α : Type} {xs : Array α} {start i : Nat}
    {vs : List α} {d : α} (h : ¬ (start ≤ i ∧ i < start + vs.length)) :
    (writeBlock xs start vs).getD i d = xs.getD i d := by
  induction vs generalizing xs start with
  | nil => rfl
  | cons v vs ih =>
      rw [List.length_cons] at h
      rw [writeBlock, ih (by omega), array_getD_setIfInBounds, if_neg (by omega)]

theorem getD_writeBlock_of_in {α : Type} {xs : Array α} {start k : Nat}
    {vs : List α} {d : α} (hin : start + vs.length ≤ xs.size) (h : k < vs.length) :
    (writeBlock xs start vs).getD (start + k) d = vs.getD k d := by
  induction vs generalizing xs start k with
  | nil => exact absurd h (Nat.not_lt_zero k)
  | cons v vs ih =>
      rw [List.length_cons] at h hin
      rw [writeBlock]
      cases k with
      | zero =>
          rw [getD_writeBlock_of_out (by omega), array_getD_setIfInBounds,
            if_pos ⟨rfl, by omega⟩]
          rfl
      | succ k =>
          rw [show start + (k + 1) = start + 1 + k by omega,
            ih (by rw [Array.size_setIfInBounds]; omega) (by omega)]
          rfl

section Writes

variable (m : PlcMemory) (startAddress : UInt16)

theorem writeCoils_stored {values : List Bool}
    (h : startAddress.toNat + values.length ≤ m.size .coil) :
    Stored m (m.writeCoils startAddress values) .coil startAddress.toNat
      values.length fun k => (values.getD k false).toUInt16 := by
  have hfits : startAddress.toNat + values.length ≤ m.coils.size := h
  rw [writeCoils, if_pos hfits]
  refine ⟨h, fun k hk => ?_, fun b i hi => ?_, fun b => ?_, rfl⟩
  · exact congrArg Bool.toUInt16 (getD_writeBlock_of_in h hk)
  · cases b <;> try rfl
    exact congrArg Bool.toUInt16 (getD_writeBlock_of_out fun h => hi ⟨rfl, h⟩)
  · cases b <;> first | rfl | exact size_writeBlock _ _ _

theorem writeHoldingRegisters_stored {values : List UInt16}
    (h : startAddress.toNat + values.length ≤ m.size .hr) :
    Stored m (m.writeHoldingRegisters startAddress values) .hr
      startAddress.toNat values.length fun k => values.getD k 0 := by
  have hfits : startAddress.toNat + values.length ≤ m.holdingRegisters.size := h
  rw [writeHoldingRegisters, if_pos hfits]
  refine ⟨h, fun k hk => getD_writeBlock_of_in h hk, fun b i hi => ?_,
    fun b => ?_, rfl⟩
  · cases b <;> try rfl
    exact getD_writeBlock_of_out fun h => hi ⟨rfl, h⟩
  · cases b <;> first | rfl | exact size_writeBlock _ _ _

end Writes

/-! ## Block reads of the store -/

theorem length_readBlock {α : Type} (xs : Array α) (start count : Nat) (d : α) :
    (readBlock xs start count d).length = count := by
  rw [readBlock, List.length_map, List.length_range]

theorem getD_readBlock {α : Type} {xs : Array α} {start count k : Nat} {d : α}
    (h : k < count) : (readBlock xs start count d).getD k d = xs.getD (start + k) d := by
  rw [List.getD_eq_getElem _ _ (by rwa [length_readBlock])]
  simp only [readBlock, List.getElem_map, List.getElem_range]

/-- A block of an area of bits, as the store returns it. -/
structure ReadsBits (m : PlcMemory) (a : Area) (start count : Nat)
    (bits : List Bool) : Prop where
  length : bits.length = count
  value : ∀ k < count, (bits.getD k false).toUInt16 = m.get a (start + k)

/-- A block of an area of words. -/
structure ReadsWords (m : PlcMemory) (a : Area) (start count : Nat)
    (words : List UInt16) : Prop where
  length : words.length = count
  value : ∀ k < count, words.getD k 0 = m.get a (start + k)

section Reads

variable {m : PlcMemory} {startAddress count : UInt16}

theorem admitted (size : Nat) (hpos : count ≠ 0)
    (h : startAddress.toNat + count.toNat ≤ size) :
    ¬ (startAddress.toNat + count.toNat > size ∨ count = 0) := by
  rintro (hgt | hzero)
  · omega
  · exact hpos hzero

theorem readCoils_reads (hpos : count ≠ 0)
    (h : startAddress.toNat + count.toNat ≤ m.size .coil) :
    m.ReadsBits .coil startAddress.toNat count.toNat (m.readCoils startAddress count) := by
  rw [readCoils, if_neg (admitted m.coils.size hpos h)]
  exact ⟨length_readBlock _ _ _ _, fun k hk =>
    congrArg Bool.toUInt16 (getD_readBlock hk)⟩

theorem readDiscreteInputs_reads (hpos : count ≠ 0)
    (h : startAddress.toNat + count.toNat ≤ m.size .di) :
    m.ReadsBits .di startAddress.toNat count.toNat
      (m.readDiscreteInputs startAddress count) := by
  rw [readDiscreteInputs, if_neg (admitted m.discreteInputs.size hpos h)]
  exact ⟨length_readBlock _ _ _ _, fun k hk =>
    congrArg Bool.toUInt16 (getD_readBlock hk)⟩

theorem readInputRegisters_reads (hpos : count ≠ 0)
    (h : startAddress.toNat + count.toNat ≤ m.size .ir) :
    m.ReadsWords .ir startAddress.toNat count.toNat
      (m.readInputRegisters startAddress count) := by
  rw [readInputRegisters, if_neg (admitted m.inputRegisters.size hpos h)]
  exact ⟨length_readBlock _ _ _ _, fun k hk => getD_readBlock hk⟩

theorem readHoldingRegisters_reads (hpos : count ≠ 0)
    (h : startAddress.toNat + count.toNat ≤ m.size .hr) :
    m.ReadsWords .hr startAddress.toNat count.toNat
      (m.readHoldingRegisters startAddress count) := by
  rw [readHoldingRegisters, if_neg (admitted m.holdingRegisters.size hpos h)]
  exact ⟨length_readBlock _ _ _ _, fun k hk => getD_readBlock hk⟩

end Reads

end PlcMemory

end VPlc
