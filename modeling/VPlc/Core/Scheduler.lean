import VPlc.Core.Loader

/-!
# The scan and everyone around it

`PlcScheduler::loop` repeats three calls. They are the atomic steps of this
model, and between any two of them the protocol servers may write the memory:
`ClientWrite` lists the calls they make. What a server does around the call (it
checks the request and sends a reply) leaves no trace in the memory.

What the loop does with its clock is not part of the step: the statistics are
built over the run, and the sleep at the end of a cycle is left out.
-/

namespace VPlc

/-- A write to the memory by someone other than the scan. The Modbus server
makes the first four (functions 05, 06, 0F and 10), the tag manager the single
ones among the first six, and the native protocols go through references. -/
inductive ClientWrite
  | coil (address : UInt16) (value : Bool)
  | holdingRegister (address value : UInt16)
  | coils (startAddress : UInt16) (values : List Bool)
  | holdingRegisters (startAddress : UInt16) (values : List UInt16)
  | discreteInput (address : UInt16) (value : Bool)
  | inputRegister (address value : UInt16)
  | reference (ref : MemoryRef) (v : UInt16)
  deriving DecidableEq, Repr

namespace ClientWrite

def apply (m : PlcMemory) : ClientWrite → PlcMemory
  | coil address value => m.writeCoil address value
  | holdingRegister address value => m.writeHoldingRegister address value
  | coils startAddress values => m.writeCoils startAddress values
  | holdingRegisters startAddress values =>
      m.writeHoldingRegisters startAddress values
  | discreteInput address value => m.writeDiscreteInput address value
  | inputRegister address value => m.writeInputRegister address value
  | reference ref v => m.writeValue ref v

def Touches (a : Area) (i : Nat) : ClientWrite → Prop
  | coil address _ => a = .coil ∧ i = address.toNat
  | holdingRegister address _ => a = .hr ∧ i = address.toNat
  | coils start values =>
      a = .coil ∧ start.toNat ≤ i ∧ i < start.toNat + values.length
  | holdingRegisters start values =>
      a = .hr ∧ start.toNat ≤ i ∧ i < start.toNat + values.length
  | discreteInput address _ => a = .di ∧ i = address.toNat
  | inputRegister address _ => a = .ir ∧ i = address.toNat
  | reference ref _ => ref.area? = some a ∧ i = ref.index.toNat

instance (a : Area) (i : Nat) : (w : ClientWrite) → Decidable (w.Touches a i)
  | coil _ _ => inferInstanceAs (Decidable (_ ∧ _))
  | holdingRegister _ _ => inferInstanceAs (Decidable (_ ∧ _))
  | coils _ _ => inferInstanceAs (Decidable (_ ∧ _))
  | holdingRegisters _ _ => inferInstanceAs (Decidable (_ ∧ _))
  | discreteInput _ _ => inferInstanceAs (Decidable (_ ∧ _))
  | inputRegister _ _ => inferInstanceAs (Decidable (_ ∧ _))
  | reference _ _ => inferInstanceAs (Decidable (_ ∧ _))

end ClientWrite

def PlcMemory.clientWrites (m : PlcMemory) (ws : List ClientWrite) : PlcMemory :=
  ws.foldl ClientWrite.apply m

/-- Which of its three calls the scheduler makes next. -/
inductive Phase
  | inputs | logic | outputs
  deriving DecidableEq, Repr

/-- The memory, the loaded library, and where the scheduler stands. -/
structure Plant (σ : Type) where
  mem : PlcMemory
  dll : LogicState σ
  phase : Phase
  tick : UInt64

namespace PlcScheduler

variable {σ : Type}

/-- The scheduler's next call. -/
def step (L : PlcLoader σ) (s : Plant σ) : Plant σ :=
  match s.phase with
  | .inputs =>
      let (mem, dll) := L.syncInputsToDll s.mem s.dll
      { mem, dll, phase := .logic, tick := s.tick + 1 }
  | .logic => { s with dll := L.runLogic s.tick s.dll, phase := .outputs }
  | .outputs =>
      { s with mem := L.syncOutputsFromDll s.mem s.dll, phase := .inputs }

/-- What precedes the loop. -/
def start (L : PlcLoader σ) (m : PlcMemory) (d : LogicState σ) : Plant σ :=
  let d' := L.initLogic d
  ⟨L.syncOutputsFromDll m d', d', .inputs, 0⟩

/-- One iteration of the loop. -/
def scan (L : PlcLoader σ) (s : Plant σ) : Plant σ := step L (step L (step L s))

/-- Something happens: the scheduler's next call, or a write by a client. -/
inductive Event
  | step
  | client (w : ClientWrite)
  deriving DecidableEq, Repr

def exec (L : PlcLoader σ) (s : Plant σ) : Event → Plant σ
  | .step => step L s
  | .client w => { s with mem := w.apply s.mem }

def run (L : PlcLoader σ) (s : Plant σ) (es : List Event) : Plant σ :=
  es.foldl (exec L) s

end PlcScheduler

end VPlc
