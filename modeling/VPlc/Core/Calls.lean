import VPlc.Core.Block
import VPlc.Threads.Atomic

/-!
# The memory as its callers share it

Every method of `PlcMemory` that reads or writes the vectors takes the lock at
its first line and holds it to its last, so for the threads that share a memory
one call is one step. The four sizes are read without the lock; the vectors are
never resized.

`Protocol.Agree` is what a protocol sees of the memory. A call of one protocol
answers by that protocol's areas alone and leaves the others' as they were
(`secludes`).
-/

namespace VPlc

/-- A call of one of the memory's methods. -/
inductive Call
  | getCoilsSize | getDiscreteInputsSize | getInputRegistersSize | getHoldingRegistersSize
  | readCoil (address : UInt16)
  | writeCoil (address : UInt16) (value : Bool)
  | readDiscreteInput (address : UInt16)
  | writeDiscreteInput (address : UInt16) (value : Bool)
  | readInputRegister (address : UInt16)
  | writeInputRegister (address value : UInt16)
  | readHoldingRegister (address : UInt16)
  | writeHoldingRegister (address value : UInt16)
  | readCoils (startAddress count : UInt16)
  | writeCoils (startAddress : UInt16) (values : List Bool)
  | readDiscreteInputs (startAddress count : UInt16)
  | readInputRegisters (startAddress count : UInt16)
  | readHoldingRegisters (startAddress count : UInt16)
  | writeHoldingRegisters (startAddress : UInt16) (values : List UInt16)
  | readS7PE (address : UInt16)
  | writeS7PE (address : UInt16) (value : Bool)
  | readS7PA (address : UInt16)
  | writeS7PA (address : UInt16) (value : Bool)
  | readS7DB1 (address : UInt16)
  | writeS7DB1 (address value : UInt16)
  | readS7DB2 (address : UInt16)
  | writeS7DB2 (address value : UInt16)
  | readMCBit (area : String) (address : UInt16)
  | writeMCBit (area : String) (address : UInt16) (value : Bool)
  | readMCWord (area : String) (address : UInt16)
  | writeMCWord (area : String) (address value : UInt16)
  | readLSBit (area : String) (address : UInt16)
  | writeLSBit (area : String) (address : UInt16) (value : Bool)
  | readLSWord (address : UInt16)
  | writeLSWord (address value : UInt16)
  deriving DecidableEq, Repr

/-- `MODBUS`, `S7`, `MC` and `LS`: whose areas a part of the memory are. -/
inductive Protocol
  | modbus | s7 | mc | ls
  deriving DecidableEq, Repr

def PlcMemory.SameSizes (m m' : PlcMemory) : Prop := ∀ a, m'.size a = m.size a

namespace Call

@[reducible] def Ret : Call → Type
  | getCoilsSize | getDiscreteInputsSize | getInputRegistersSize | getHoldingRegistersSize => Nat
  | readCoil _ | readDiscreteInput _ => Bool
  | readInputRegister _ | readHoldingRegister _ => UInt16
  | readCoils _ _ | readDiscreteInputs _ _ => List Bool
  | readInputRegisters _ _ | readHoldingRegisters _ _ => List UInt16
  | readS7PE _ | readS7PA _ => Bool
  | readS7DB1 _ | readS7DB2 _ => UInt16
  | readMCBit _ _ => Bool
  | readMCWord _ _ => UInt16
  | readLSBit _ _ => Bool
  | readLSWord _ => UInt16
  | writeCoil _ _ | writeDiscreteInput _ _ | writeInputRegister _ _
  | writeHoldingRegister _ _ | writeCoils _ _ | writeHoldingRegisters _ _
  | writeS7PE _ _ | writeS7PA _ _ | writeS7DB1 _ _ | writeS7DB2 _ _
  | writeMCBit _ _ _ | writeMCWord _ _ _ | writeLSBit _ _ _ | writeLSWord _ _ => PUnit

def exec : (c : Call) → PlcMemory → PlcMemory × c.Ret
  | getCoilsSize, m => (m, m.getCoilsSize)
  | getDiscreteInputsSize, m => (m, m.getDiscreteInputsSize)
  | getInputRegistersSize, m => (m, m.getInputRegistersSize)
  | getHoldingRegistersSize, m => (m, m.getHoldingRegistersSize)
  | readCoil address, m => (m, m.readCoil address)
  | writeCoil address value, m => (m.writeCoil address value, ⟨⟩)
  | readDiscreteInput address, m => (m, m.readDiscreteInput address)
  | writeDiscreteInput address value, m => (m.writeDiscreteInput address value, ⟨⟩)
  | readInputRegister address, m => (m, m.readInputRegister address)
  | writeInputRegister address value, m => (m.writeInputRegister address value, ⟨⟩)
  | readHoldingRegister address, m => (m, m.readHoldingRegister address)
  | writeHoldingRegister address value, m => (m.writeHoldingRegister address value, ⟨⟩)
  | readCoils start count, m => (m, m.readCoils start count)
  | writeCoils start values, m => (m.writeCoils start values, ⟨⟩)
  | readDiscreteInputs start count, m => (m, m.readDiscreteInputs start count)
  | readInputRegisters start count, m => (m, m.readInputRegisters start count)
  | readHoldingRegisters start count, m => (m, m.readHoldingRegisters start count)
  | writeHoldingRegisters start values, m => (m.writeHoldingRegisters start values, ⟨⟩)
  | readS7PE address, m => (m, m.readS7PE address)
  | writeS7PE address value, m => (m.writeS7PE address value, ⟨⟩)
  | readS7PA address, m => (m, m.readS7PA address)
  | writeS7PA address value, m => (m.writeS7PA address value, ⟨⟩)
  | readS7DB1 address, m => (m, m.readS7DB1 address)
  | writeS7DB1 address value, m => (m.writeS7DB1 address value, ⟨⟩)
  | readS7DB2 address, m => (m, m.readS7DB2 address)
  | writeS7DB2 address value, m => (m.writeS7DB2 address value, ⟨⟩)
  | readMCBit area address, m => (m, m.readMCBit area address)
  | writeMCBit area address value, m => (m.writeMCBit area address value, ⟨⟩)
  | readMCWord area address, m => (m, m.readMCWord area address)
  | writeMCWord area address value, m => (m.writeMCWord area address value, ⟨⟩)
  | readLSBit area address, m => (m, m.readLSBit area address)
  | writeLSBit area address value, m => (m.writeLSBit area address value, ⟨⟩)
  | readLSWord address, m => (m, m.readLSWord address)
  | writeLSWord address value, m => (m.writeLSWord address value, ⟨⟩)

def perform (c : Call) : Threads.Prog Call Ret c.Ret := .perform c

@[simp] theorem alone_perform (c : Call) (m : PlcMemory) :
    Threads.alone exec c.perform m = c.exec m := rfl

theorem size_exec (c : Call) (m : PlcMemory) (a : Area) : (c.exec m).1.size a = m.size a := by
  cases c <;> try rfl
  case writeCoil address value =>
    rw [exec, PlcMemory.writeCoil_eq]
    exact m.size_set .coil a _ _
  case writeDiscreteInput address value =>
    rw [exec, PlcMemory.writeDiscreteInput_eq]
    exact m.size_set .di a _ _
  case writeInputRegister address value => exact m.size_set .ir a address.toNat value
  case writeHoldingRegister address value => exact m.size_set .hr a address.toNat value
  case writeCoils start values =>
    by_cases h : start.toNat + values.length ≤ m.coils.size
    · exact (m.writeCoils_stored start h).size a
    · simp only [exec, PlcMemory.writeCoils, if_neg h]
  case writeHoldingRegisters start values =>
    by_cases h : start.toNat + values.length ≤ m.holdingRegisters.size
    · exact (m.writeHoldingRegisters_stored start h).size a
    · simp only [exec, PlcMemory.writeHoldingRegisters, if_neg h]
  all_goals
    simp only [exec, PlcMemory.writeMCBit, PlcMemory.writeMCWord, PlcMemory.writeLSBit]
    cases a <;> try rfl
  all_goals
    repeat' split
    all_goals rfl

def protocol : Call → Protocol
  | readS7PE _ | writeS7PE _ _ | readS7PA _ | writeS7PA _ _ => .s7
  | readS7DB1 _ | writeS7DB1 _ _ | readS7DB2 _ | writeS7DB2 _ _ => .s7
  | readMCBit _ _ | writeMCBit _ _ _ | readMCWord _ _ | writeMCWord _ _ _ => .mc
  | readLSBit _ _ | writeLSBit _ _ _ | readLSWord _ | writeLSWord _ _ => .ls
  | _ => .modbus

def Of (P : Protocol) (c : Call) : Prop := c.protocol = P

theorem calls_perform {c : Call} {P : Protocol} (h : c.protocol = P) :
    c.perform.Calls (Of P) := Threads.Prog.Calls.perform h

theorem atomic_perform {I : PlcMemory → Prop} (c : Call) :
    Threads.Atomic exec I c.perform := .perform c

end Call

def Area.owner : Area → Protocol
  | coil | di | ir | hr => .modbus
  | s7Pe | s7Pa | s7Db1 | s7Db2 => .s7
  | mcX | mcY | mcM | mcL | mcB | mcF | mcSM | mcD | mcW | mcR | mcZR | mcSD => .mc
  | lsI | lsQ | lsM | lsW => .ls

/-- The two memories are the same to a protocol. -/
def Protocol.Agree (P : Protocol) (m m' : PlcMemory) : Prop :=
  ∀ a : Area, a.owner = P → m.size a = m'.size a ∧ ∀ i, m.get a i = m'.get a i

namespace Protocol

theorem Agree.refl (P : Protocol) (m : PlcMemory) : P.Agree m m :=
  fun _ _ => ⟨rfl, fun _ => rfl⟩

theorem Agree.trans {P : Protocol} {m m' m'' : PlcMemory} (h : P.Agree m m')
    (h' : P.Agree m' m'') : P.Agree m m'' :=
  fun a ha => ⟨(h a ha).1.trans (h' a ha).1, fun i => ((h a ha).2 i).trans ((h' a ha).2 i)⟩

/-! ## A protocol's areas are its vectors -/

theorem agree_modbus {m m' : PlcMemory} :
    Protocol.modbus.Agree m m' ↔
      m.coils = m'.coils ∧ m.discreteInputs = m'.discreteInputs ∧
        m.inputRegisters = m'.inputRegisters ∧ m.holdingRegisters = m'.holdingRegisters := by
  have hbool : ∀ {b c : Bool}, b.toUInt16 = c.toUInt16 → b = c := by decide
  constructor
  · intro h
    exact ⟨PlcMemory.array_ext_getD (h .coil rfl).1 fun i => hbool ((h .coil rfl).2 i),
      PlcMemory.array_ext_getD (h .di rfl).1 fun i => hbool ((h .di rfl).2 i),
      PlcMemory.array_ext_getD (h .ir rfl).1 (h .ir rfl).2,
      PlcMemory.array_ext_getD (h .hr rfl).1 (h .hr rfl).2⟩
  · rintro ⟨hcoil, hdi, hir, hhr⟩ a ha
    cases a <;> first | exact absurd ha (by decide) | skip
    all_goals simp only [PlcMemory.size, PlcMemory.get, hcoil, hdi, hir, hhr, implies_true,
      and_self]

theorem agree_s7 {m m' : PlcMemory} :
    Protocol.s7.Agree m m' ↔
      m.s7Pe = m'.s7Pe ∧ m.s7Pa = m'.s7Pa ∧ m.s7Db1 = m'.s7Db1 ∧ m.s7Db2 = m'.s7Db2 := by
  have hbool : ∀ {b c : Bool}, b.toUInt16 = c.toUInt16 → b = c := by decide
  constructor
  · intro h
    exact ⟨PlcMemory.vector_ext_getD fun i => hbool ((h .s7Pe rfl).2 i),
      PlcMemory.vector_ext_getD fun i => hbool ((h .s7Pa rfl).2 i),
      PlcMemory.vector_ext_getD (h .s7Db1 rfl).2, PlcMemory.vector_ext_getD (h .s7Db2 rfl).2⟩
  · rintro ⟨hpe, hpa, hdb1, hdb2⟩ a ha
    cases a <;> first | exact absurd ha (by decide) | skip
    all_goals simp only [PlcMemory.size, PlcMemory.get, hpe, hpa, hdb1, hdb2, implies_true,
      and_self]

theorem agree_mc {m m' : PlcMemory} :
    Protocol.mc.Agree m m' ↔
      (m.mcX = m'.mcX ∧ m.mcY = m'.mcY ∧ m.mcM = m'.mcM ∧ m.mcL = m'.mcL ∧ m.mcB = m'.mcB ∧
        m.mcF = m'.mcF ∧ m.mcSM = m'.mcSM) ∧
      m.mcD = m'.mcD ∧ m.mcW = m'.mcW ∧ m.mcR = m'.mcR ∧ m.mcZR = m'.mcZR ∧
        m.mcSD = m'.mcSD := by
  have hbool : ∀ {b c : Bool}, b.toUInt16 = c.toUInt16 → b = c := by decide
  constructor
  · intro h
    exact ⟨⟨PlcMemory.vector_ext_getD fun i => hbool ((h .mcX rfl).2 i),
        PlcMemory.vector_ext_getD fun i => hbool ((h .mcY rfl).2 i),
        PlcMemory.vector_ext_getD fun i => hbool ((h .mcM rfl).2 i),
        PlcMemory.vector_ext_getD fun i => hbool ((h .mcL rfl).2 i),
        PlcMemory.vector_ext_getD fun i => hbool ((h .mcB rfl).2 i),
        PlcMemory.vector_ext_getD fun i => hbool ((h .mcF rfl).2 i),
        PlcMemory.vector_ext_getD fun i => hbool ((h .mcSM rfl).2 i)⟩,
      PlcMemory.vector_ext_getD (h .mcD rfl).2, PlcMemory.vector_ext_getD (h .mcW rfl).2,
      PlcMemory.vector_ext_getD (h .mcR rfl).2, PlcMemory.vector_ext_getD (h .mcZR rfl).2,
      PlcMemory.vector_ext_getD (h .mcSD rfl).2⟩
  · rintro ⟨⟨hx, hy, hm, hl, hb, hf, hsm⟩, hd, hw, hr, hzr, hsd⟩ a ha
    cases a <;> first | exact absurd ha (by decide) | skip
    all_goals simp only [PlcMemory.size, PlcMemory.get, hx, hy, hm, hl, hb, hf, hsm, hd, hw, hr,
      hzr, hsd, implies_true, and_self]

theorem agree_ls {m m' : PlcMemory} :
    Protocol.ls.Agree m m' ↔
      m.lsI = m'.lsI ∧ m.lsQ = m'.lsQ ∧ m.lsM = m'.lsM ∧ m.lsW = m'.lsW := by
  have hbool : ∀ {b c : Bool}, b.toUInt16 = c.toUInt16 → b = c := by decide
  constructor
  · intro h
    exact ⟨PlcMemory.vector_ext_getD fun i => hbool ((h .lsI rfl).2 i),
      PlcMemory.vector_ext_getD fun i => hbool ((h .lsQ rfl).2 i),
      PlcMemory.vector_ext_getD fun i => hbool ((h .lsM rfl).2 i),
      PlcMemory.vector_ext_getD (h .lsW rfl).2⟩
  · rintro ⟨hi, hq, hm, hw⟩ a ha
    cases a <;> first | exact absurd ha (by decide) | skip
    all_goals simp only [PlcMemory.size, PlcMemory.get, hi, hq, hm, hw, implies_true, and_self]

/-! ## Calls and protocols -/

section Calls

open PlcMemory

theorem agree_exec_of_ne {c : Call} {P : Protocol} (h : c.protocol ≠ P) (m : PlcMemory) :
    P.Agree (c.exec m).1 m := by
  cases P with
  | modbus =>
      rw [agree_modbus]
      cases c <;> first | exact absurd rfl h | exact ⟨rfl, rfl, rfl, rfl⟩ | skip
      all_goals simp only [Call.exec, writeMCBit, writeMCWord, writeLSBit]
      all_goals repeat' split
      all_goals exact ⟨rfl, rfl, rfl, rfl⟩
  | s7 =>
      rw [agree_s7]
      cases c <;> first | exact absurd rfl h | exact ⟨rfl, rfl, rfl, rfl⟩ | skip
      all_goals simp only [Call.exec, writeCoils, writeHoldingRegisters, writeMCBit, writeMCWord,
        writeLSBit]
      all_goals repeat' split
      all_goals exact ⟨rfl, rfl, rfl, rfl⟩
  | mc =>
      rw [agree_mc]
      cases c <;> first
        | exact absurd rfl h
        | exact ⟨⟨rfl, rfl, rfl, rfl, rfl, rfl, rfl⟩, rfl, rfl, rfl, rfl, rfl⟩
        | skip
      all_goals simp only [Call.exec, writeCoils, writeHoldingRegisters, writeLSBit]
      all_goals repeat' split
      all_goals exact ⟨⟨rfl, rfl, rfl, rfl, rfl, rfl, rfl⟩, rfl, rfl, rfl, rfl, rfl⟩
  | ls =>
      rw [agree_ls]
      cases c <;> first | exact absurd rfl h | exact ⟨rfl, rfl, rfl, rfl⟩ | skip
      all_goals simp only [Call.exec, writeCoils, writeHoldingRegisters, writeMCBit, writeMCWord]
      all_goals repeat' split
      all_goals exact ⟨rfl, rfl, rfl, rfl⟩

/-- A call is answered by its protocol's areas, and changes them by what they
were. -/
theorem exec_agree {c : Call} {m m' : PlcMemory} (h : c.protocol.Agree m m') :
    (c.exec m).2 = (c.exec m').2 ∧ c.protocol.Agree (c.exec m).1 (c.exec m').1 := by
  cases hP : c.protocol with
  | modbus =>
      rw [hP, agree_modbus] at h
      obtain ⟨hcoil, hdi, hir, hhr⟩ := h
      rw [agree_modbus]
      cases c <;> first | (cases hP; done) | skip
      all_goals simp only [Call.exec, getCoilsSize, getDiscreteInputsSize, getInputRegistersSize,
        getHoldingRegistersSize, readCoil, writeCoil, readDiscreteInput, writeDiscreteInput,
        readInputRegister, writeInputRegister, readHoldingRegister, writeHoldingRegister,
        readCoils, writeCoils, readDiscreteInputs, readInputRegisters, readHoldingRegisters,
        writeHoldingRegisters, hcoil, hdi, hir, hhr, and_self]
      all_goals split
      all_goals simp only [hcoil, hdi, hir, hhr, and_self]
  | s7 =>
      rw [hP, agree_s7] at h
      obtain ⟨hpe, hpa, hdb1, hdb2⟩ := h
      rw [agree_s7]
      cases c <;> first | (cases hP; done) | skip
      all_goals simp only [Call.exec, readS7PE, writeS7PE, readS7PA, writeS7PA, readS7DB1,
        writeS7DB1, readS7DB2, writeS7DB2, hpe, hpa, hdb1, hdb2, and_self]
  | mc =>
      rw [hP, agree_mc] at h
      obtain ⟨⟨hx, hy, hm, hl, hb, hf, hsm⟩, hd, hw, hr, hzr, hsd⟩ := h
      rw [agree_mc]
      cases c <;> first | (cases hP; done) | skip
      all_goals simp only [Call.exec, readMCBit, writeMCBit, readMCWord, writeMCWord, hx, hy, hm,
        hl, hb, hf, hsm, hd, hw, hr, hzr, hsd, and_self]
      all_goals repeat' split
      all_goals simp only [hx, hy, hm, hl, hb, hf, hsm, hd, hw, hr, hzr, hsd, and_self]
  | ls =>
      rw [hP, agree_ls] at h
      obtain ⟨hi, hq, hm, hw⟩ := h
      rw [agree_ls]
      cases c <;> first | (cases hP; done) | skip
      all_goals simp only [Call.exec, readLSBit, writeLSBit, readLSWord, writeLSWord, hi, hq, hm,
        hw, and_self]
      all_goals repeat' split
      all_goals simp only [hi, hq, hm, hw, and_self]

/-- The calls of a protocol and those of the others. -/
theorem secludes (P : Protocol) :
    Threads.Secludes Call.exec P.Agree (fun c => c.protocol = P) fun c => c.protocol ≠ P where
  answer hc h := by
    subst hc
    exact (exec_agree h).1
  store hc h := by
    subst hc
    exact (exec_agree h).2
  other hc h := (agree_exec_of_ne hc _).trans h

end Calls

end Protocol

end VPlc
