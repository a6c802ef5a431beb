import VPlc.Core.Address

/-!
# The mapping engine

`readValue` and `writeValue` dispatch on the strings of a `MemoryRef`, and
`syncMappings` walks the rule list once, comparing each endpoint with what the
rule last recorded for it. The `try` around the body of the loop is not here:
nothing in it can throw once the addresses have been parsed.

After the code comes the reading of it the proofs use. A reference either names
a cell of the store or names nothing (`cell`), and reading and writing through
it is `get` and `set` of that cell, or zero and no change. `view` is the store
as the engine sees it, a function from what a reference names to a value.
-/

namespace VPlc

namespace PlcMemory

def readValue (m : PlcMemory) (ref : MemoryRef) : UInt16 :=
  if ref.protocol = "MODBUS" then
    if ref.area = "COIL" then (m.readCoil ref.index).toUInt16
    else if ref.area = "DI" then (m.readDiscreteInput ref.index).toUInt16
    else if ref.area = "IR" then m.readInputRegister ref.index
    else if ref.area = "HR" then m.readHoldingRegister ref.index
    else 0
  else if ref.protocol = "S7" then
    if ref.area = "PE" then (m.readS7PE ref.index).toUInt16
    else if ref.area = "PA" then (m.readS7PA ref.index).toUInt16
    else if ref.area = "DB1" then m.readS7DB1 ref.index
    else if ref.area = "DB2" then m.readS7DB2 ref.index
    else 0
  else if ref.protocol = "MC" then
    if ref.isBit then (m.readMCBit ref.area ref.index).toUInt16
    else m.readMCWord ref.area ref.index
  else if ref.protocol = "LS" then
    if ref.isBit then (m.readLSBit ref.area ref.index).toUInt16
    else m.readLSWord ref.index
  else 0

def writeValue (m : PlcMemory) (ref : MemoryRef) (value : UInt16) : PlcMemory :=
  if ref.protocol = "MODBUS" then
    if ref.area = "COIL" then m.writeCoil ref.index (value ≠ 0)
    else if ref.area = "DI" then m.writeDiscreteInput ref.index (value ≠ 0)
    else if ref.area = "IR" then m.writeInputRegister ref.index value
    else if ref.area = "HR" then m.writeHoldingRegister ref.index value
    else m
  else if ref.protocol = "S7" then
    if ref.area = "PE" then m.writeS7PE ref.index (value ≠ 0)
    else if ref.area = "PA" then m.writeS7PA ref.index (value ≠ 0)
    else if ref.area = "DB1" then m.writeS7DB1 ref.index value
    else if ref.area = "DB2" then m.writeS7DB2 ref.index value
    else m
  else if ref.protocol = "MC" then
    if ref.isBit then m.writeMCBit ref.area ref.index (value ≠ 0)
    else m.writeMCWord ref.area ref.index value
  else if ref.protocol = "LS" then
    if ref.isBit then m.writeLSBit ref.area ref.index (value ≠ 0)
    else m.writeLSWord ref.index value
  else m

/-- The body of the loop in `PlcMemory::syncMappings`. -/
def syncRule (m : PlcMemory) (rule : MappingRule) : PlcMemory × MappingRule :=
  let currSrc := m.readValue rule.src
  let currDst := m.readValue rule.dst
  if !rule.initialized then
    if currSrc ≠ currDst then
      (m.writeValue rule.dst currSrc,
        { rule with lastSrcVal := currSrc, lastDstVal := currSrc,
                    initialized := true })
    else
      (m, { rule with lastSrcVal := currSrc, lastDstVal := currDst,
                      initialized := true })
  else if currSrc ≠ rule.lastSrcVal then
    -- Source changed, update destination
    (m.writeValue rule.dst currSrc,
      { rule with lastSrcVal := currSrc, lastDstVal := currSrc })
  else if currDst ≠ rule.lastDstVal then
    -- Destination changed, update source
    (m.writeValue rule.src currDst,
      { rule with lastSrcVal := currDst, lastDstVal := currDst })
  else if currSrc ≠ currDst then
    (m.writeValue rule.dst currSrc,
      { rule with lastSrcVal := currSrc, lastDstVal := currSrc })
  else (m, rule)

/-- The loop itself, over the rules still to come. -/
def syncRules (m : PlcMemory) : List MappingRule → PlcMemory × List MappingRule
  | [] => (m, [])
  | rule :: rules =>
      let (m₁, rule') := m.syncRule rule
      let (m₂, rules') := syncRules m₁ rules
      (m₂, rule' :: rules')

/-- An element of the mapping document as `item.value(key, "")` sees it: it
throws unless the element is an object whose `src` and `dst`, where present, are
strings; an absent one reads as the empty string. -/
inductive MappingItem
  | illTyped
  | entry (src dst : String)
  deriving DecidableEq, Repr

/-- The rule an element gives, if any: one with an empty side is passed over,
one with an address that does not parse is logged and left out. -/
def itemRule (src dst : String) : Option MappingRule :=
  if src.isEmpty ∨ dst.isEmpty then none
  else
    match parseAddress src, parseAddress dst with
    | .ok s, .ok d => some { srcRaw := src, dstRaw := dst, src := s, dst := d }
    | _, _ => none

/-- The rules of a document, or nothing if reading it throws. -/
def itemRules : List MappingItem → Option (List MappingRule)
  | [] => some []
  | .illTyped :: _ => none
  | .entry src dst :: items =>
      (itemRules items).map ((itemRule src dst).toList ++ ·)

/-- `PlcMemory::loadMappings`. The document is nothing when the file cannot be
opened or is not JSON; the rules in force are replaced only on success. -/
def loadMappings (m : PlcMemory) (doc : Option (List MappingItem)) :
    PlcMemory × Bool :=
  match doc.bind itemRules with
  | none => (m, false)
  | some rules => ({ m with mappings := rules }, true)

def syncMappings (m : PlcMemory) : PlcMemory :=
  let (m', rules) := m.syncRules m.mappings
  { m' with mappings := rules }

end PlcMemory

/-! ## What a reference names -/

/-- The area the dispatch of `readValue` and `writeValue` reaches. -/
def MemoryRef.area? (ref : MemoryRef) : Option Area :=
  if ref.protocol = "MODBUS" then
    if ref.area = "COIL" then some .coil
    else if ref.area = "DI" then some .di
    else if ref.area = "IR" then some .ir
    else if ref.area = "HR" then some .hr
    else none
  else if ref.protocol = "S7" then
    if ref.area = "PE" then some .s7Pe
    else if ref.area = "PA" then some .s7Pa
    else if ref.area = "DB1" then some .s7Db1
    else if ref.area = "DB2" then some .s7Db2
    else none
  else if ref.protocol = "MC" then
    if ref.isBit then
      if ref.area = "X" then some .mcX
      else if ref.area = "Y" then some .mcY
      else if ref.area = "M" then some .mcM
      else if ref.area = "L" then some .mcL
      else if ref.area = "B" then some .mcB
      else if ref.area = "F" then some .mcF
      else if ref.area = "SM" then some .mcSM
      else none
    else
      if ref.area = "D" then some .mcD
      else if ref.area = "W" then some .mcW
      else if ref.area = "R" then some .mcR
      else if ref.area = "ZR" then some .mcZR
      else if ref.area = "SD" then some .mcSD
      else none
  else if ref.protocol = "LS" then
    if ref.isBit then
      if ref.area = "I" then some .lsI
      else if ref.area = "Q" then some .lsQ
      else if ref.area = "M" then some .lsM
      else none
    else some .lsW
  else none

structure Cell where
  area : Area
  index : Nat
  deriving DecidableEq, Repr

namespace PlcMemory

/-- The cell a reference names, or nothing when its area does not exist or its
index is past the end. -/
def cell (m : PlcMemory) (ref : MemoryRef) : Option Cell :=
  ref.area?.bind fun a =>
    if ref.index.toNat < m.size a then some ⟨a, ref.index.toNat⟩ else none

/-- The store as the engine sees it. What names no cell reads zero. -/
def view (m : PlcMemory) : Option Cell → UInt16
  | none => 0
  | some c => m.get c.area c.index

end PlcMemory

/-- What reading back gives after a value is written. -/
def cellNorm : Option Cell → UInt16 → UInt16
  | none, _ => 0
  | some c, v => c.area.norm v

namespace PlcMemory

variable (m : PlcMemory) (ref q : MemoryRef) (v : UInt16)

theorem readValue_eq :
    m.readValue ref = ref.area?.elim 0 fun a => m.get a ref.index.toNat := by
  simp only [readValue, readMCBit, readMCWord, readLSBit, MemoryRef.area?,
    apply_ite Bool.toUInt16,
    apply_ite (fun o : Option Area => o.elim 0 fun a => m.get a ref.index.toNat),
    Option.elim_some, Option.elim_none]
  rfl

theorem writeValue_eq :
    m.writeValue ref v = ref.area?.elim m fun a => m.set a ref.index.toNat v := by
  simp only [writeValue, writeMCBit, writeMCWord, writeLSBit, MemoryRef.area?,
    apply_ite (fun o : Option Area => o.elim m fun a => m.set a ref.index.toNat v),
    Option.elim_some, Option.elim_none]
  rfl

theorem cell_eq_some {ref : MemoryRef} {c : Cell} :
    m.cell ref = some c ↔
      ref.area? = some c.area ∧ ref.index.toNat = c.index ∧
        c.index < m.size c.area := by
  obtain ⟨a, i⟩ := c
  unfold cell
  cases ha : ref.area? with
  | none => simp
  | some b =>
      simp only [Option.bind_some, Option.some.injEq]
      constructor
      · intro h
        split at h
        · next hlt =>
            cases h
            exact ⟨rfl, rfl, hlt⟩
        · cases h
      · rintro ⟨rfl, rfl, hlt⟩
        rw [if_pos hlt]

theorem readValue_view : m.readValue ref = m.view (m.cell ref) := by
  rw [readValue_eq, cell]
  cases ref.area? with
  | none => rfl
  | some a =>
      simp only [Option.elim_some, Option.bind_some]
      split
      · rfl
      · next hlt => exact get_of_size_le (by omega)

@[simp] theorem size_writeValue (a : Area) :
    (m.writeValue ref v).size a = m.size a := by
  rw [writeValue_eq]
  cases ref.area? with
  | none => rfl
  | some b => exact size_set m b a _ v

@[simp] theorem mappings_writeValue :
    (m.writeValue ref v).mappings = m.mappings := by
  rw [writeValue_eq]
  cases ref.area? with
  | none => rfl
  | some a => exact mappings_set m a _ v

theorem cell_congr {m m' : PlcMemory} (h : ∀ a, m'.size a = m.size a) :
    m'.cell ref = m.cell ref := by
  unfold cell
  simp only [h]

@[simp] theorem cell_writeValue : (m.writeValue ref v).cell q = m.cell q :=
  cell_congr q fun a => size_writeValue m ref v a

theorem view_set (a : Area) (i : Nat) (h : i < m.size a) :
    (m.set a i v).view = Function.update m.view (some ⟨a, i⟩) (a.norm v) := by
  funext k
  cases k with
  | none => rw [Function.update_of_ne (by simp)]; rfl
  | some c =>
      obtain ⟨b, j⟩ := c
      simp only [view, get_set, Function.update_apply, Option.some.injEq,
        Cell.mk.injEq]
      by_cases hab : b = a ∧ j = i
      · rw [if_pos ⟨hab.1.symm, hab.2.symm, h⟩, if_pos hab]
      · rw [if_neg (fun h' => hab ⟨h'.1.symm, h'.2.1.symm⟩), if_neg hab]

theorem view_set_out {a : Area} {i : Nat} (h : ¬ i < m.size a) :
    (m.set a i v).view = m.view := by
  funext k
  cases k with
  | none => rfl
  | some c =>
      simp only [view, get_set]
      rw [if_neg (fun h' => h h'.2.2)]

/-- Writing through a reference updates the cell it names. Naming nothing is
no special case: nothing reads zero before and after. -/
theorem view_writeValue :
    (m.writeValue ref v).view =
      Function.update m.view (m.cell ref) (cellNorm (m.cell ref) v) := by
  have hnone : Function.update m.view none (cellNorm none v) = m.view :=
    Function.update_eq_self none m.view
  rw [writeValue_eq, cell]
  cases ref.area? with
  | none => exact hnone.symm
  | some a =>
      simp only [Option.elim_some, Option.bind_some]
      split
      · next hlt => exact view_set m v a _ hlt
      · next hlt => rw [view_set_out m v hlt]; exact hnone.symm

theorem norm_view (k : Option Cell) : cellNorm k (m.view k) = m.view k := by
  cases k with
  | none => rfl
  | some c => exact norm_get m c.area c.index

end PlcMemory

theorem readValue_writeValue_self (m : PlcMemory) (ref : MemoryRef)
    (v : UInt16) :
    (m.writeValue ref v).readValue ref = cellNorm (m.cell ref) v := by
  rw [PlcMemory.readValue_view, PlcMemory.cell_writeValue,
    PlcMemory.view_writeValue, Function.update_self]

end VPlc
