import VPlc.Core.AreaTable
import VPlc.Core.Scheduler
import VPlc.Threads.Interleaved

/-!
# The scan, call by call

`syncInputsToDll` and `syncOutputsFromDll` are loops over the bindings, and each
turn calls the memory once or twice. The lock is free between two calls, so the
protocol servers and the tag manager write in the middle of a sync as well. In
`PlcScheduler.step` the three calls of the loop are steps; here they last, and
`Happening.call` carries the writes that others made meanwhile.

A pass of the mapping engine remains one step. A memory without rules has none.
-/

namespace VPlc

open Threads (Prog)

/-- The calls that the loader makes. -/
inductive LoaderCall
  | readDiscreteInput (address : UInt16)
  | readCoil (address : UInt16)
  | readHoldingRegister (address : UInt16)
  | writeDiscreteInput (address : UInt16) (value : Bool)
  | writeCoil (address : UInt16) (value : Bool)
  | writeInputRegister (address value : UInt16)
  | writeHoldingRegister (address value : UInt16)
  deriving DecidableEq, Repr

namespace LoaderCall

@[reducible] def Ret : LoaderCall → Type
  | readDiscreteInput _ | readCoil _ => Bool
  | readHoldingRegister _ => UInt16
  | _ => PUnit

def exec : (c : LoaderCall) → PlcMemory → PlcMemory × c.Ret
  | readDiscreteInput address, m => (m, m.readDiscreteInput address)
  | readCoil address, m => (m, m.readCoil address)
  | readHoldingRegister address, m => (m, m.readHoldingRegister address)
  | writeDiscreteInput address value, m => (m.writeDiscreteInput address value, ⟨⟩)
  | writeCoil address value, m => (m.writeCoil address value, ⟨⟩)
  | writeInputRegister address value, m => (m.writeInputRegister address value, ⟨⟩)
  | writeHoldingRegister address value, m => (m.writeHoldingRegister address value, ⟨⟩)

def perform (c : LoaderCall) : Prog LoaderCall Ret c.Ret := .perform c

def cell : LoaderCall → Cell
  | readDiscreteInput address | writeDiscreteInput address _ => ⟨.di, address.toNat⟩
  | readCoil address | writeCoil address _ => ⟨.coil, address.toNat⟩
  | writeInputRegister address _ => ⟨.ir, address.toNat⟩
  | readHoldingRegister address | writeHoldingRegister address _ => ⟨.hr, address.toNat⟩

end LoaderCall

namespace PlcLoader.Calls

/-- The body of the loop in `syncInputsToDll`. -/
def pullBinding (v : Vars) (b : VarBinding) : Prog LoaderCall LoaderCall.Ret Vars :=
  match b.type with
  | .coil => do
      let autoMode ← (LoaderCall.readDiscreteInput 0).perform
      if autoMode then pure v
      else
        let val ← (LoaderCall.readCoil b.plcAddress).perform
        pure { v with qx := Function.update v.qx b.plcAddress (if val then 1 else 0) }
  | .discreteInput =>
      if b.plcAddress = 0 ∨ b.plcAddress = 7 then do
        let val ← (LoaderCall.readDiscreteInput b.plcAddress).perform
        pure { v with ix := Function.update v.ix b.plcAddress (if val then 1 else 0) }
      else pure v
  | .holdingRegister => do
      let val ← (LoaderCall.readHoldingRegister b.plcAddress).perform
      pure { v with mw := Function.update v.mw b.plcAddress val }
  | .inputRegister => pure v

/-- The body of the loop in `syncOutputsFromDll`. -/
def pushBinding (v : Vars) (b : VarBinding) : Prog LoaderCall LoaderCall.Ret PUnit :=
  match b.type with
  | .discreteInput =>
      if b.plcAddress ≠ 0 ∧ b.plcAddress ≠ 7 then
        (LoaderCall.writeDiscreteInput b.plcAddress (v.ix b.plcAddress ≠ 0)).perform
      else pure ⟨⟩
  | .coil => (LoaderCall.writeCoil b.plcAddress (v.qx b.plcAddress ≠ 0)).perform
  | .inputRegister => (LoaderCall.writeInputRegister b.plcAddress (v.iw b.plcAddress)).perform
  | .holdingRegister =>
      (LoaderCall.writeHoldingRegister b.plcAddress (v.mw b.plcAddress)).perform

/-- The loop of `syncInputsToDll`. -/
def pull (bs : List VarBinding) (v : Vars) : Prog LoaderCall LoaderCall.Ret Vars :=
  bs.foldlM pullBinding v

/-- The loop of `syncOutputsFromDll`. -/
def push (bs : List VarBinding) (v : Vars) : Prog LoaderCall LoaderCall.Ret PUnit :=
  forM bs (pushBinding v)

end PlcLoader.Calls

/-! ## Writes to single cells -/

/-- A write to one cell. -/
structure CellWrite where
  area : Area
  index : UInt16
  value : UInt16
  deriving DecidableEq, Repr

namespace CellWrite

def apply (m : PlcMemory) (w : CellWrite) : PlcMemory := m.set w.area w.index.toNat w.value

def target (w : CellWrite) : Cell := ⟨w.area, w.index.toNat⟩

/-- The client write that does it. -/
def toClient (w : CellWrite) : ClientWrite :=
  match w.area with
  | .coil => .coil w.index (w.value ≠ 0)
  | .di => .discreteInput w.index (w.value ≠ 0)
  | .ir => .inputRegister w.index w.value
  | .hr => .holdingRegister w.index w.value
  | a => .reference (a.ref w.index) w.value

/-- A block, cell by cell. -/
def block (a : Area) : UInt16 → List UInt16 → List CellWrite
  | _, [] => []
  | i, v :: vs => ⟨a, i, v⟩ :: block a (i + 1) vs

end CellWrite

/-- The cells a client write stores to in a memory of the size of `m`. -/
def ClientWrite.cells (m : PlcMemory) : ClientWrite → List CellWrite
  | coil address value => [⟨.coil, address, value.toUInt16⟩]
  | holdingRegister address value => [⟨.hr, address, value⟩]
  | coils startAddress values =>
      if startAddress.toNat + values.length ≤ m.size .coil then
        CellWrite.block .coil startAddress (values.map Bool.toUInt16)
      else []
  | holdingRegisters startAddress values =>
      if startAddress.toNat + values.length ≤ m.size .hr then
        CellWrite.block .hr startAddress values
      else []
  | discreteInput address value => [⟨.di, address, value.toUInt16⟩]
  | inputRegister address value => [⟨.ir, address, value⟩]
  | reference ref v => ref.area?.elim [] fun a => [⟨a, ref.index, v⟩]

namespace PlcScheduler

variable {σ : Type}

/-- What can happen: one of the three calls is made, and others write while it
lasts, or they write between two calls. -/
inductive Happening
  | call (during : List ClientWrite)
  | client (w : ClientWrite)
  deriving DecidableEq, Repr

/-- The scheduler's next call, with these writes made while it lasted. -/
def During (L : PlcLoader σ) (s : Plant σ) (ws : List ClientWrite) (s' : Plant σ) : Prop :=
  match s.phase with
  | .inputs => ∃ mem vars,
      Threads.Interleaved LoaderCall.exec ClientWrite.apply
        (PlcLoader.Calls.pull L.bindings s.dll.vars) s.mem.syncMappings ws mem vars ∧
      s' = ⟨mem, { s.dll with vars }, .logic, s.tick + 1⟩
  | .logic =>
      s' = { s with mem := s.mem.clientWrites ws, dll := L.runLogic s.tick s.dll
                    phase := .outputs }
  | .outputs => ∃ mem,
      Threads.Interleaved LoaderCall.exec ClientWrite.apply
        (PlcLoader.Calls.push L.bindings s.dll.vars) s.mem ws mem ⟨⟩ ∧
      s' = { s with mem := mem.syncMappings, phase := .inputs }

/-- A run in which the calls last. -/
inductive Lasting (L : PlcLoader σ) : Plant σ → List Happening → Plant σ → Prop
  | nil (s : Plant σ) : Lasting L s [] s
  | client {s s' : Plant σ} {w : ClientWrite} {hs : List Happening}
      (h : Lasting L { s with mem := w.apply s.mem } hs s') : Lasting L s (.client w :: hs) s'
  | call {s s₁ s' : Plant σ} {ws : List ClientWrite} {hs : List Happening}
      (hcall : During L s ws s₁) (h : Lasting L s₁ hs s') : Lasting L s (.call ws :: hs) s'

def nextPhase : Phase → Phase
  | .inputs => .logic
  | .logic => .outputs
  | .outputs => .inputs

/-- Nobody throws the mode switch while the inputs are copied. -/
def Calm : Phase → List Happening → Prop
  | _, [] => True
  | phase, .client _ :: hs => Calm phase hs
  | phase, .call ws :: hs =>
      (phase = .inputs → ∀ w ∈ ws, ¬ w.Touches .di 0) ∧ Calm (nextPhase phase) hs

/-- The writes of clients in a run. -/
def clientWritesOf (m : PlcMemory) : List Happening → List CellWrite
  | [] => []
  | .client w :: hs => w.cells m ++ clientWritesOf m hs
  | .call ws :: hs => ws.flatMap (ClientWrite.cells m) ++ clientWritesOf m hs

/-- The clients' events of a run. -/
def Event.client? : Event → Option ClientWrite
  | .step => none
  | .client w => some w

end PlcScheduler

end VPlc
