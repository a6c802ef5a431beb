import Mathlib.Logic.Function.Basic

/-!
# The memory every protocol server shares

`PlcMemory` is a bag of vectors: four Modbus areas whose sizes are chosen when
the store is built, and twenty native areas of the other three protocols whose
sizes are fixed. The fixed sizes are in the types here, so a store with a data
block of the wrong length cannot be written down.

The accessors come first and are the source's own, one by one: a read past the
end answers zero, a write past the end is dropped. Below them is the one fact
the rest of the development uses. Every accessor is `get` or `set` of an `Area`
at an index, and the two obey the store laws (`get_set`, `size_set`), so no
proof further up ever meets one of the twenty-four vectors again.
-/

namespace VPlc

/-- `MemoryRef`: an address as the mapping engine passes it around. The two
strings are compared, never parsed again. -/
structure MemoryRef where
  protocol : String
  area : String
  index : UInt16
  isBit : Bool
  deriving DecidableEq, Repr

/-- `MappingRule`: two addresses and what the engine last saw at each. -/
structure MappingRule where
  srcRaw : String
  dstRaw : String
  src : MemoryRef
  dst : MemoryRef
  lastSrcVal : UInt16 := 0
  lastDstVal : UInt16 := 0
  initialized : Bool := false
  deriving DecidableEq, Repr

/-- `PlcMemory`, its vectors in the order of the header. -/
structure PlcMemory where
  coils : Array Bool
  discreteInputs : Array Bool
  inputRegisters : Array UInt16
  holdingRegisters : Array UInt16
  s7Pe : Vector Bool 2048
  s7Pa : Vector Bool 2048
  s7Db1 : Vector UInt16 1024
  s7Db2 : Vector UInt16 1024
  mcX : Vector Bool 2048
  mcY : Vector Bool 2048
  mcM : Vector Bool 2048
  mcL : Vector Bool 2048
  mcB : Vector Bool 2048
  mcF : Vector Bool 2048
  mcSM : Vector Bool 2048
  mcD : Vector UInt16 1024
  mcW : Vector UInt16 1024
  mcR : Vector UInt16 1024
  mcZR : Vector UInt16 1024
  mcSD : Vector UInt16 1024
  lsI : Vector Bool 2048
  lsQ : Vector Bool 2048
  lsM : Vector Bool 2048
  lsW : Vector UInt16 1024
  mappings : List MappingRule

namespace PlcMemory

def defaultCoilsSize : Nat := 2048
def defaultDiscreteInputsSize : Nat := 2048
def defaultInputRegistersSize : Nat := 1024
def defaultHoldingRegistersSize : Nat := 1024

/-- The constructor, short of the mapping file it goes on to load. -/
def new (coilsSize discreteInputsSize inputRegistersSize
    holdingRegistersSize : Nat) : PlcMemory where
  coils := Array.replicate coilsSize false
  discreteInputs := Array.replicate discreteInputsSize false
  inputRegisters := Array.replicate inputRegistersSize 0
  holdingRegisters := Array.replicate holdingRegistersSize 0
  s7Pe := Vector.replicate 2048 false
  s7Pa := Vector.replicate 2048 false
  s7Db1 := Vector.replicate 1024 0
  s7Db2 := Vector.replicate 1024 0
  mcX := Vector.replicate 2048 false
  mcY := Vector.replicate 2048 false
  mcM := Vector.replicate 2048 false
  mcL := Vector.replicate 2048 false
  mcB := Vector.replicate 2048 false
  mcF := Vector.replicate 2048 false
  mcSM := Vector.replicate 2048 false
  mcD := Vector.replicate 1024 0
  mcW := Vector.replicate 1024 0
  mcR := Vector.replicate 1024 0
  mcZR := Vector.replicate 1024 0
  mcSD := Vector.replicate 1024 0
  lsI := Vector.replicate 2048 false
  lsQ := Vector.replicate 2048 false
  lsM := Vector.replicate 2048 false
  lsW := Vector.replicate 1024 0
  mappings := []

/-- The store `main` builds: every size at its default. -/
def default : PlcMemory :=
  new defaultCoilsSize defaultDiscreteInputsSize defaultInputRegistersSize
    defaultHoldingRegistersSize

def getCoilsSize (m : PlcMemory) : Nat := m.coils.size
def getDiscreteInputsSize (m : PlcMemory) : Nat := m.discreteInputs.size
def getInputRegistersSize (m : PlcMemory) : Nat := m.inputRegisters.size
def getHoldingRegistersSize (m : PlcMemory) : Nat := m.holdingRegisters.size

/-! ## Modbus accessors -/

def readCoil (m : PlcMemory) (address : UInt16) : Bool :=
  m.coils.getD address.toNat false

def writeCoil (m : PlcMemory) (address : UInt16) (value : Bool) : PlcMemory :=
  { m with coils := m.coils.setIfInBounds address.toNat value }

def readDiscreteInput (m : PlcMemory) (address : UInt16) : Bool :=
  m.discreteInputs.getD address.toNat false

def writeDiscreteInput (m : PlcMemory) (address : UInt16) (value : Bool) :
    PlcMemory :=
  { m with discreteInputs := m.discreteInputs.setIfInBounds address.toNat value }

def readInputRegister (m : PlcMemory) (address : UInt16) : UInt16 :=
  m.inputRegisters.getD address.toNat 0

def writeInputRegister (m : PlcMemory) (address : UInt16) (value : UInt16) :
    PlcMemory :=
  { m with inputRegisters := m.inputRegisters.setIfInBounds address.toNat value }

def readHoldingRegister (m : PlcMemory) (address : UInt16) : UInt16 :=
  m.holdingRegisters.getD address.toNat 0

def writeHoldingRegister (m : PlcMemory) (address : UInt16) (value : UInt16) :
    PlcMemory :=
  { m with holdingRegisters := m.holdingRegisters.setIfInBounds address.toNat value }

/-- The loop of the block writes: `xs[start + i] = values[i]` for each `i`. -/
def writeBlock {α : Type} (xs : Array α) (start : Nat) : List α → Array α
  | [] => xs
  | v :: vs => writeBlock (xs.setIfInBounds start v) (start + 1) vs

/-- A block that does not fit is dropped whole. -/
def writeCoils (m : PlcMemory) (startAddress : UInt16) (values : List Bool) :
    PlcMemory :=
  if startAddress.toNat + values.length ≤ m.coils.size then
    { m with coils := writeBlock m.coils startAddress.toNat values }
  else m

def writeHoldingRegisters (m : PlcMemory) (startAddress : UInt16)
    (values : List UInt16) : PlcMemory :=
  if startAddress.toNat + values.length ≤ m.holdingRegisters.size then
    { m with holdingRegisters :=
        writeBlock m.holdingRegisters startAddress.toNat values }
  else m

/-- The loop of the block reads: `xs[start + i]` for each `i` below `count`. -/
def readBlock {α : Type} (xs : Array α) (start count : Nat) (d : α) : List α :=
  (List.range count).map fun i => xs.getD (start + i) d

/-- An empty list if the range is not one of the area. -/
def readCoils (m : PlcMemory) (startAddress count : UInt16) : List Bool :=
  if startAddress.toNat + count.toNat > m.coils.size ∨ count = 0 then []
  else readBlock m.coils startAddress.toNat count.toNat false

def readDiscreteInputs (m : PlcMemory) (startAddress count : UInt16) :
    List Bool :=
  if startAddress.toNat + count.toNat > m.discreteInputs.size ∨ count = 0 then []
  else readBlock m.discreteInputs startAddress.toNat count.toNat false

def readInputRegisters (m : PlcMemory) (startAddress count : UInt16) :
    List UInt16 :=
  if startAddress.toNat + count.toNat > m.inputRegisters.size ∨ count = 0 then []
  else readBlock m.inputRegisters startAddress.toNat count.toNat 0

def readHoldingRegisters (m : PlcMemory) (startAddress count : UInt16) :
    List UInt16 :=
  if startAddress.toNat + count.toNat > m.holdingRegisters.size ∨ count = 0 then []
  else readBlock m.holdingRegisters startAddress.toNat count.toNat 0

/-! ## Native accessors of the other protocols -/

def readS7PE (m : PlcMemory) (address : UInt16) : Bool :=
  m.s7Pe.getD address.toNat false

def writeS7PE (m : PlcMemory) (address : UInt16) (value : Bool) : PlcMemory :=
  { m with s7Pe := m.s7Pe.setIfInBounds address.toNat value }

def readS7PA (m : PlcMemory) (address : UInt16) : Bool :=
  m.s7Pa.getD address.toNat false

def writeS7PA (m : PlcMemory) (address : UInt16) (value : Bool) : PlcMemory :=
  { m with s7Pa := m.s7Pa.setIfInBounds address.toNat value }

def readS7DB1 (m : PlcMemory) (address : UInt16) : UInt16 :=
  m.s7Db1.getD address.toNat 0

def writeS7DB1 (m : PlcMemory) (address : UInt16) (value : UInt16) : PlcMemory :=
  { m with s7Db1 := m.s7Db1.setIfInBounds address.toNat value }

def readS7DB2 (m : PlcMemory) (address : UInt16) : UInt16 :=
  m.s7Db2.getD address.toNat 0

def writeS7DB2 (m : PlcMemory) (address : UInt16) (value : UInt16) : PlcMemory :=
  { m with s7Db2 := m.s7Db2.setIfInBounds address.toNat value }

def readMCBit (m : PlcMemory) (area : String) (address : UInt16) : Bool :=
  if area = "X" then m.mcX.getD address.toNat false
  else if area = "Y" then m.mcY.getD address.toNat false
  else if area = "M" then m.mcM.getD address.toNat false
  else if area = "L" then m.mcL.getD address.toNat false
  else if area = "B" then m.mcB.getD address.toNat false
  else if area = "F" then m.mcF.getD address.toNat false
  else if area = "SM" then m.mcSM.getD address.toNat false
  else false

def writeMCBit (m : PlcMemory) (area : String) (address : UInt16)
    (value : Bool) : PlcMemory :=
  if area = "X" then { m with mcX := m.mcX.setIfInBounds address.toNat value }
  else if area = "Y" then { m with mcY := m.mcY.setIfInBounds address.toNat value }
  else if area = "M" then { m with mcM := m.mcM.setIfInBounds address.toNat value }
  else if area = "L" then { m with mcL := m.mcL.setIfInBounds address.toNat value }
  else if area = "B" then { m with mcB := m.mcB.setIfInBounds address.toNat value }
  else if area = "F" then { m with mcF := m.mcF.setIfInBounds address.toNat value }
  else if area = "SM" then { m with mcSM := m.mcSM.setIfInBounds address.toNat value }
  else m

def readMCWord (m : PlcMemory) (area : String) (address : UInt16) : UInt16 :=
  if area = "D" then m.mcD.getD address.toNat 0
  else if area = "W" then m.mcW.getD address.toNat 0
  else if area = "R" then m.mcR.getD address.toNat 0
  else if area = "ZR" then m.mcZR.getD address.toNat 0
  else if area = "SD" then m.mcSD.getD address.toNat 0
  else 0

def writeMCWord (m : PlcMemory) (area : String) (address : UInt16)
    (value : UInt16) : PlcMemory :=
  if area = "D" then { m with mcD := m.mcD.setIfInBounds address.toNat value }
  else if area = "W" then { m with mcW := m.mcW.setIfInBounds address.toNat value }
  else if area = "R" then { m with mcR := m.mcR.setIfInBounds address.toNat value }
  else if area = "ZR" then { m with mcZR := m.mcZR.setIfInBounds address.toNat value }
  else if area = "SD" then { m with mcSD := m.mcSD.setIfInBounds address.toNat value }
  else m

def readLSBit (m : PlcMemory) (area : String) (address : UInt16) : Bool :=
  if area = "I" then m.lsI.getD address.toNat false
  else if area = "Q" then m.lsQ.getD address.toNat false
  else if area = "M" then m.lsM.getD address.toNat false
  else false

def writeLSBit (m : PlcMemory) (area : String) (address : UInt16)
    (value : Bool) : PlcMemory :=
  if area = "I" then { m with lsI := m.lsI.setIfInBounds address.toNat value }
  else if area = "Q" then { m with lsQ := m.lsQ.setIfInBounds address.toNat value }
  else if area = "M" then { m with lsM := m.lsM.setIfInBounds address.toNat value }
  else m

def readLSWord (m : PlcMemory) (address : UInt16) : UInt16 :=
  m.lsW.getD address.toNat 0

def writeLSWord (m : PlcMemory) (address : UInt16) (value : UInt16) : PlcMemory :=
  { m with lsW := m.lsW.setIfInBounds address.toNat value }

end PlcMemory

end VPlc
