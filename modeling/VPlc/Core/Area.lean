import VPlc.Core.Memory

/-!
# Twenty-four vectors as one store

An `Area` names one of the vectors of `PlcMemory`. `get` and `set` read and
write any of them as sixteen-bit values, a bit being `0` or `1`, which is how
`readValue` and `writeValue` see the store. The laws at the end are the whole
interface: what a `set` changes is the one cell it names, if the cell exists,
and the sizes never move.
-/

namespace VPlc

/-- The vectors of `PlcMemory`. -/
inductive Area
  | coil | di | ir | hr
  | s7Pe | s7Pa | s7Db1 | s7Db2
  | mcX | mcY | mcM | mcL | mcB | mcF | mcSM
  | mcD | mcW | mcR | mcZR | mcSD
  | lsI | lsQ | lsM | lsW
  deriving DecidableEq, Repr

namespace Area

def isBit : Area → Bool
  | coil | di | s7Pe | s7Pa => true
  | mcX | mcY | mcM | mcL | mcB | mcF | mcSM => true
  | lsI | lsQ | lsM => true
  | ir | hr | s7Db1 | s7Db2 => false
  | mcD | mcW | mcR | mcZR | mcSD => false
  | lsW => false

/-- The four areas the loader and the Modbus server work on. -/
def isModbus : Area → Bool
  | coil | di | ir | hr => true
  | _ => false

/-- What a cell of the area holds after a value is written to it. -/
def norm (a : Area) (v : UInt16) : UInt16 :=
  if a.isBit then (decide (v ≠ 0)).toUInt16 else v

theorem norm_zero (a : Area) : a.norm 0 = 0 := by
  unfold norm
  split <;> rfl

theorem norm_of_bit {a : Area} (h : a.isBit = true) (v : UInt16) :
    a.norm v = (decide (v ≠ 0)).toUInt16 := by rw [norm, if_pos h]

theorem norm_of_word {a : Area} (h : a.isBit = false) (v : UInt16) :
    a.norm v = v := by rw [norm, if_neg (by simp [h])]

theorem norm_bit {a : Area} (h : a.isBit = true) (b : Bool) :
    a.norm b.toUInt16 = b.toUInt16 := by
  rw [norm_of_bit h]; cases b <;> rfl

theorem norm_of_le_one (a : Area) {v : UInt16} (h : v.toNat ≤ 1) : a.norm v = v := by
  have hcases : v = 0 ∨ v = 1 := by
    rw [← UInt16.toNat_inj, ← UInt16.toNat_inj]
    exact Nat.le_one_iff_eq_zero_or_eq_one.mp h
  rcases hcases with rfl | rfl
  · exact norm_zero a
  · unfold norm
    split <;> rfl

end Area

namespace PlcMemory

def size (m : PlcMemory) : Area → Nat
  | .coil => m.coils.size
  | .di => m.discreteInputs.size
  | .ir => m.inputRegisters.size
  | .hr => m.holdingRegisters.size
  | .s7Pe | .s7Pa => 2048
  | .s7Db1 | .s7Db2 => 1024
  | .mcX | .mcY | .mcM | .mcL | .mcB | .mcF | .mcSM => 2048
  | .mcD | .mcW | .mcR | .mcZR | .mcSD => 1024
  | .lsI | .lsQ | .lsM => 2048
  | .lsW => 1024

theorem size_default (a : Area) : 1024 ≤ default.size a ∧ default.size a ≤ 2048 := by
  cases a <;> simp only [size, default, new, Array.size_replicate] <;> decide

/-- The value of a cell; zero past the end. -/
def get (m : PlcMemory) (a : Area) (i : Nat) : UInt16 :=
  match a with
  | .coil => (m.coils.getD i false).toUInt16
  | .di => (m.discreteInputs.getD i false).toUInt16
  | .ir => m.inputRegisters.getD i 0
  | .hr => m.holdingRegisters.getD i 0
  | .s7Pe => (m.s7Pe.getD i false).toUInt16
  | .s7Pa => (m.s7Pa.getD i false).toUInt16
  | .s7Db1 => m.s7Db1.getD i 0
  | .s7Db2 => m.s7Db2.getD i 0
  | .mcX => (m.mcX.getD i false).toUInt16
  | .mcY => (m.mcY.getD i false).toUInt16
  | .mcM => (m.mcM.getD i false).toUInt16
  | .mcL => (m.mcL.getD i false).toUInt16
  | .mcB => (m.mcB.getD i false).toUInt16
  | .mcF => (m.mcF.getD i false).toUInt16
  | .mcSM => (m.mcSM.getD i false).toUInt16
  | .mcD => m.mcD.getD i 0
  | .mcW => m.mcW.getD i 0
  | .mcR => m.mcR.getD i 0
  | .mcZR => m.mcZR.getD i 0
  | .mcSD => m.mcSD.getD i 0
  | .lsI => (m.lsI.getD i false).toUInt16
  | .lsQ => (m.lsQ.getD i false).toUInt16
  | .lsM => (m.lsM.getD i false).toUInt16
  | .lsW => m.lsW.getD i 0

/-- Write a cell; nothing happens past the end. -/
def set (m : PlcMemory) (a : Area) (i : Nat) (v : UInt16) : PlcMemory :=
  match a with
  | .coil => { m with coils := m.coils.setIfInBounds i (decide (v ≠ 0)) }
  | .di =>
      { m with discreteInputs := m.discreteInputs.setIfInBounds i (decide (v ≠ 0)) }
  | .ir => { m with inputRegisters := m.inputRegisters.setIfInBounds i v }
  | .hr => { m with holdingRegisters := m.holdingRegisters.setIfInBounds i v }
  | .s7Pe => { m with s7Pe := m.s7Pe.setIfInBounds i (decide (v ≠ 0)) }
  | .s7Pa => { m with s7Pa := m.s7Pa.setIfInBounds i (decide (v ≠ 0)) }
  | .s7Db1 => { m with s7Db1 := m.s7Db1.setIfInBounds i v }
  | .s7Db2 => { m with s7Db2 := m.s7Db2.setIfInBounds i v }
  | .mcX => { m with mcX := m.mcX.setIfInBounds i (decide (v ≠ 0)) }
  | .mcY => { m with mcY := m.mcY.setIfInBounds i (decide (v ≠ 0)) }
  | .mcM => { m with mcM := m.mcM.setIfInBounds i (decide (v ≠ 0)) }
  | .mcL => { m with mcL := m.mcL.setIfInBounds i (decide (v ≠ 0)) }
  | .mcB => { m with mcB := m.mcB.setIfInBounds i (decide (v ≠ 0)) }
  | .mcF => { m with mcF := m.mcF.setIfInBounds i (decide (v ≠ 0)) }
  | .mcSM => { m with mcSM := m.mcSM.setIfInBounds i (decide (v ≠ 0)) }
  | .mcD => { m with mcD := m.mcD.setIfInBounds i v }
  | .mcW => { m with mcW := m.mcW.setIfInBounds i v }
  | .mcR => { m with mcR := m.mcR.setIfInBounds i v }
  | .mcZR => { m with mcZR := m.mcZR.setIfInBounds i v }
  | .mcSD => { m with mcSD := m.mcSD.setIfInBounds i v }
  | .lsI => { m with lsI := m.lsI.setIfInBounds i (decide (v ≠ 0)) }
  | .lsQ => { m with lsQ := m.lsQ.setIfInBounds i (decide (v ≠ 0)) }
  | .lsM => { m with lsM := m.lsM.setIfInBounds i (decide (v ≠ 0)) }
  | .lsW => { m with lsW := m.lsW.setIfInBounds i v }

/-! ## The store laws -/

theorem array_getD_setIfInBounds {α : Type} (xs : Array α) (i j : Nat)
    (v d : α) :
    (xs.setIfInBounds i v).getD j d =
      if i = j ∧ i < xs.size then v else xs.getD j d := by
  rw [Array.getD_eq_getD_getElem?, Array.getD_eq_getD_getElem?,
    Array.getElem?_setIfInBounds]
  by_cases hij : i = j
  · subst hij
    by_cases hi : i < xs.size <;> simp [hi]
  · simp [hij]

theorem vector_getD_setIfInBounds {α : Type} {n : Nat} (xs : Vector α n)
    (i j : Nat) (v d : α) :
    (xs.setIfInBounds i v).getD j d =
      if i = j ∧ i < n then v else xs.getD j d := by
  have h := array_getD_setIfInBounds xs.toArray i j v d
  rw [xs.size_toArray] at h
  exact h

theorem arraySizes_set (m : PlcMemory) (a : Area) (i : Nat) (v : UInt16) :
    (m.set a i v).coils.size = m.coils.size ∧
      (m.set a i v).discreteInputs.size = m.discreteInputs.size ∧
      (m.set a i v).inputRegisters.size = m.inputRegisters.size ∧
      (m.set a i v).holdingRegisters.size = m.holdingRegisters.size := by
  cases a with
  | coil => exact ⟨Array.size_setIfInBounds, rfl, rfl, rfl⟩
  | di => exact ⟨rfl, Array.size_setIfInBounds, rfl, rfl⟩
  | ir => exact ⟨rfl, rfl, Array.size_setIfInBounds, rfl⟩
  | hr => exact ⟨rfl, rfl, rfl, Array.size_setIfInBounds⟩
  | _ => exact ⟨rfl, rfl, rfl, rfl⟩

@[simp] theorem size_set (m : PlcMemory) (a b : Area) (i : Nat) (v : UInt16) :
    (m.set a i v).size b = m.size b := by
  obtain ⟨hcoils, hdi, hir, hhr⟩ := m.arraySizes_set a i v
  cases b with
  | coil => exact hcoils
  | di => exact hdi
  | ir => exact hir
  | hr => exact hhr
  | _ => rfl

@[simp] theorem mappings_set (m : PlcMemory) (a : Area) (i : Nat) (v : UInt16) :
    (m.set a i v).mappings = m.mappings := by
  cases a <;> rfl

theorem get_set_area {a b : Area} (h : a ≠ b) (m : PlcMemory) (i j : Nat)
    (v : UInt16) : (m.set a i v).get b j = m.get b j := by
  cases a <;> cases b <;> first | rfl | exact absurd rfl h

/-- Inside one area a write changes its own cell and no other. -/
theorem get_set_same (m : PlcMemory) (a : Area) (i j : Nat) (v : UInt16) :
    (m.set a i v).get a j =
      if i = j ∧ i < m.size a then a.norm v else m.get a j := by
  by_cases h : i = j ∧ i < m.size a
  · rw [if_pos h]
    cases a <;> simp only [size] at h <;>
      simp only [set, get, array_getD_setIfInBounds, vector_getD_setIfInBounds,
        if_pos h] <;> rfl
  · rw [if_neg h]
    cases a <;> simp only [size] at h <;>
      simp only [set, get, array_getD_setIfInBounds, vector_getD_setIfInBounds,
        if_neg h]

theorem get_set (m : PlcMemory) (a b : Area) (i j : Nat) (v : UInt16) :
    (m.set a i v).get b j =
      if a = b ∧ i = j ∧ i < m.size a then a.norm v else m.get b j := by
  by_cases hab : a = b
  · subst hab
    rw [get_set_same]
    simp only [true_and]
  · rw [get_set_area hab, if_neg (fun h => hab h.1)]

theorem array_getD_of_size_le {α : Type} {xs : Array α} {i : Nat} {d : α}
    (h : xs.size ≤ i) : xs.getD i d = d := by
  rw [Array.getD_eq_getD_getElem?, Array.getElem?_eq_none h]
  rfl

theorem vector_getD_of_le {α : Type} {n : Nat} {xs : Vector α n} {i : Nat}
    {d : α} (h : n ≤ i) : xs.getD i d = d :=
  @array_getD_of_size_le _ xs.toArray i d (by rw [xs.size_toArray]; exact h)

theorem get_of_size_le {m : PlcMemory} {a : Area} {i : Nat}
    (h : m.size a ≤ i) : m.get a i = 0 := by
  cases a <;> simp only [size] at h <;> simp only [get] <;>
    first
      | exact array_getD_of_size_le h
      | exact vector_getD_of_le h
      | exact congrArg Bool.toUInt16 (array_getD_of_size_le h)
      | exact congrArg Bool.toUInt16 (vector_getD_of_le h)

theorem norm_get (m : PlcMemory) (a : Area) (i : Nat) :
    a.norm (m.get a i) = m.get a i := by
  cases a <;>
    first
      | exact Area.norm_of_word rfl _
      | exact Area.norm_bit rfl _

/-! ## The cells are the store -/

theorem array_getD_replicate {α : Type} (n i : Nat) (d : α) :
    (Array.replicate n d).getD i d = d := by
  rw [Array.getD_eq_getD_getElem?, Array.getElem?_replicate]
  split <;> rfl

theorem vector_getD_replicate {α : Type} (n i : Nat) (d : α) :
    (Vector.replicate n d).getD i d = d := array_getD_replicate n i d

theorem get_default (a : Area) (i : Nat) : PlcMemory.default.get a i = 0 := by
  cases a <;> simp only [get, default, new, array_getD_replicate, vector_getD_replicate] <;> rfl

theorem array_ext_getD {α : Type} {xs ys : Array α} {d : α} (hsize : xs.size = ys.size)
    (h : ∀ i, xs.getD i d = ys.getD i d) : xs = ys := by
  refine Array.ext hsize ?_
  intro i hi hi'
  have hd := h i
  rwa [Array.getD_eq_getD_getElem?, Array.getD_eq_getD_getElem?, Array.getElem?_eq_getElem hi,
    Array.getElem?_eq_getElem hi'] at hd

theorem vector_ext_getD {α : Type} {n : Nat} {xs ys : Vector α n} {d : α}
    (h : ∀ i, xs.getD i d = ys.getD i d) : xs = ys :=
  Vector.toArray_inj.mp (array_ext_getD (by rw [xs.size_toArray, ys.size_toArray]) h)

/-- A store is its cells, its sizes and its mappings. -/
theorem ext_get {m m' : PlcMemory} (hsize : ∀ a, m.size a = m'.size a)
    (hget : ∀ a i, m.get a i = m'.get a i) (hmappings : m.mappings = m'.mappings) :
    m = m' := by
  have hbool : ∀ {b c : Bool}, b.toUInt16 = c.toUInt16 → b = c := by decide
  cases m
  cases m'
  congr
  · exact array_ext_getD (hsize .coil) fun i => hbool (hget .coil i)
  · exact array_ext_getD (hsize .di) fun i => hbool (hget .di i)
  · exact array_ext_getD (hsize .ir) fun i => hget .ir i
  · exact array_ext_getD (hsize .hr) fun i => hget .hr i
  · exact vector_ext_getD fun i => hbool (hget .s7Pe i)
  · exact vector_ext_getD fun i => hbool (hget .s7Pa i)
  · exact vector_ext_getD fun i => hget .s7Db1 i
  · exact vector_ext_getD fun i => hget .s7Db2 i
  · exact vector_ext_getD fun i => hbool (hget .mcX i)
  · exact vector_ext_getD fun i => hbool (hget .mcY i)
  · exact vector_ext_getD fun i => hbool (hget .mcM i)
  · exact vector_ext_getD fun i => hbool (hget .mcL i)
  · exact vector_ext_getD fun i => hbool (hget .mcB i)
  · exact vector_ext_getD fun i => hbool (hget .mcF i)
  · exact vector_ext_getD fun i => hbool (hget .mcSM i)
  · exact vector_ext_getD fun i => hget .mcD i
  · exact vector_ext_getD fun i => hget .mcW i
  · exact vector_ext_getD fun i => hget .mcR i
  · exact vector_ext_getD fun i => hget .mcZR i
  · exact vector_ext_getD fun i => hget .mcSD i
  · exact vector_ext_getD fun i => hbool (hget .lsI i)
  · exact vector_ext_getD fun i => hbool (hget .lsQ i)
  · exact vector_ext_getD fun i => hbool (hget .lsM i)
  · exact vector_ext_getD fun i => hget .lsW i

/-! ## The accessors are `get` and `set` -/

section Accessors

variable (m : PlcMemory) (address value : UInt16) (b : Bool)

theorem decide_toUInt16_ne (b : Bool) : decide (b.toUInt16 ≠ 0) = b := by
  cases b <;> rfl

theorem writeCoil_eq : m.writeCoil address b = m.set .coil address.toNat b.toUInt16 := by
  rw [writeCoil, set, decide_toUInt16_ne]

theorem writeDiscreteInput_eq :
    m.writeDiscreteInput address b = m.set .di address.toNat b.toUInt16 := by
  rw [writeDiscreteInput, set, decide_toUInt16_ne]

theorem writeInputRegister_eq :
    m.writeInputRegister address value = m.set .ir address.toNat value := rfl

theorem writeHoldingRegister_eq :
    m.writeHoldingRegister address value = m.set .hr address.toNat value := rfl

theorem readCoil_eq : (m.readCoil address).toUInt16 = m.get .coil address.toNat := rfl

theorem readDiscreteInput_eq :
    (m.readDiscreteInput address).toUInt16 = m.get .di address.toNat := rfl

theorem readDiscreteInput_congr {m m' : PlcMemory} {address : UInt16}
    (h : m'.get .di address.toNat = m.get .di address.toNat) :
    m'.readDiscreteInput address = m.readDiscreteInput address := by
  rw [← readDiscreteInput_eq, ← readDiscreteInput_eq] at h
  have hd := congrArg (fun v => decide (v ≠ 0)) h
  simpa only [decide_toUInt16_ne] using hd

theorem readDiscreteInput_writeDiscreteInput
    (h : address.toNat < m.size .di) (address' : UInt16) :
    (m.writeDiscreteInput address b).readDiscreteInput address' =
      if address' = address then b else m.readDiscreteInput address' := by
  have hcell : (m.writeDiscreteInput address b).readDiscreteInput address' =
      if address.toNat = address'.toNat ∧ address.toNat < m.discreteInputs.size
      then b else m.readDiscreteInput address' :=
    array_getD_setIfInBounds m.discreteInputs _ _ b false
  rw [hcell]
  refine if_congr ?_ rfl rfl
  rw [UInt16.toNat_inj]
  exact ⟨fun h => h.1.symm, fun he => ⟨he.symm, h⟩⟩

theorem readHoldingRegister_eq :
    m.readHoldingRegister address = m.get .hr address.toNat := rfl

end Accessors

end PlcMemory

end VPlc
