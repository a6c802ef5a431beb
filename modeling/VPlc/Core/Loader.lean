import VPlc.Core.Mapping

/-!
# The logic library and its loader

A logic library is a shared object: two entry points and a set of global
variables with conventional names, `__IX0_3`, `__QX0_3`, `__IW3`, `__MW3`. The
loader looks each of the names up once and keeps what it found as bindings. A
binding holds a pointer; here the variables are functions of a number and a
binding's pointer is the variable of its kind and number, which is how
`resolveBindings` pairs them.

`syncInputsToDll` and `syncOutputsFromDll` copy between the bound variables and
`PlcMemory`, each kind by its own rule, with one pass of the mapping engine
before the first and after the second.
-/

namespace VPlc

/-- The variables of a library that the loader knows names for. -/
@[ext] structure Vars where
  ix : UInt16 → UInt8
  qx : UInt16 → UInt8
  iw : UInt16 → UInt16
  mw : UInt16 → UInt16

/-- Everything a library keeps between calls: those variables, and its own. -/
structure LogicState (σ : Type) where
  vars : Vars
  priv : σ

/-- A shared object, as far as `dlsym` and a call can tell. -/
structure Library (σ : Type) where
  hasSymbol : String → Bool
  initHook : String → Option (LogicState σ → LogicState σ)
  runHook : String → Option (UInt64 → LogicState σ → LogicState σ)

/-- `VarBinding::Type`. -/
inductive VarType
  | discreteInput | coil | inputRegister | holdingRegister
  deriving DecidableEq, Repr

structure VarBinding where
  type : VarType
  plcAddress : UInt16
  deriving DecidableEq, Repr

/-- The name a variable is looked up under. -/
def VarType.symbolName : VarType → UInt16 → String
  | .discreteInput, i => "__IX0_" ++ toString i.toNat
  | .coil, i => "__QX0_" ++ toString i.toNat
  | .inputRegister, i => "__IW" ++ toString i.toNat
  | .holdingRegister, i => "__MW" ++ toString i.toNat

/-- `PlcLoader`, without the memory it refers to. -/
structure PlcLoader (σ : Type) where
  loaded : Bool
  configInitFn : Option (LogicState σ → LogicState σ)
  configRunFn : Option (UInt64 → LogicState σ → LogicState σ)
  bindings : List VarBinding

namespace PlcLoader

variable {σ : Type}

/-- The loader after `unloadLibrary`. -/
def empty : PlcLoader σ := ⟨false, none, none, []⟩

/-- One of the four loops of `resolveBindings`. -/
def resolveType (lib : Library σ) (type : VarType) : List VarBinding :=
  ((List.range 64).map UInt16.ofNat).filterMap fun i =>
    if lib.hasSymbol (type.symbolName i) then some ⟨type, i⟩ else none

def resolveBindings (lib : Library σ) : List VarBinding :=
  resolveType lib .discreteInput ++ resolveType lib .coil ++
    resolveType lib .inputRegister ++ resolveType lib .holdingRegister

/-- `PlcLoader::loadLibrary`, given what `dlopen` makes of a path. -/
def loadLibrary (dlopen : String → Option (Library σ)) (path : String) :
    PlcLoader σ × Bool :=
  if path.isEmpty then (empty, true)
  else
    match dlopen path with
    | none => (empty, false)
    | some lib =>
        ({ loaded := true
           configInitFn := (lib.initHook "config_init__").or (lib.initHook "init")
           configRunFn := (lib.runHook "config_run__").or (lib.runHook "run")
           bindings := resolveBindings lib }, true)

def initLogic (L : PlcLoader σ) (d : LogicState σ) : LogicState σ :=
  L.configInitFn.elim d fun f => f d

def runLogic (L : PlcLoader σ) (tick : UInt64) (d : LogicState σ) :
    LogicState σ :=
  L.configRunFn.elim d fun f => f tick d

/-- The body of the loop in `syncInputsToDll`. -/
def pullBinding (m : PlcMemory) (v : Vars) (b : VarBinding) : Vars :=
  match b.type with
  | .coil =>
      -- In AUTO mode the sequence logic owns the coils.
      if m.readDiscreteInput 0 then v
      else
        { v with
          qx := Function.update v.qx b.plcAddress
            (if m.readCoil b.plcAddress then 1 else 0) }
  | .discreteInput =>
      if b.plcAddress = 0 ∨ b.plcAddress = 7 then
        { v with
          ix := Function.update v.ix b.plcAddress
            (if m.readDiscreteInput b.plcAddress then 1 else 0) }
      else v
  | .holdingRegister =>
      { v with
        mw := Function.update v.mw b.plcAddress
          (m.readHoldingRegister b.plcAddress) }
  | .inputRegister => v

/-- The body of the loop in `syncOutputsFromDll`. -/
def pushBinding (v : Vars) (m : PlcMemory) (b : VarBinding) : PlcMemory :=
  match b.type with
  | .discreteInput =>
      if b.plcAddress ≠ 0 ∧ b.plcAddress ≠ 7 then
        m.writeDiscreteInput b.plcAddress (v.ix b.plcAddress ≠ 0)
      else m
  | .coil => m.writeCoil b.plcAddress (v.qx b.plcAddress ≠ 0)
  | .inputRegister => m.writeInputRegister b.plcAddress (v.iw b.plcAddress)
  | .holdingRegister => m.writeHoldingRegister b.plcAddress (v.mw b.plcAddress)

/-- The loop of `syncInputsToDll`. -/
def pull (bs : List VarBinding) (m : PlcMemory) (v : Vars) : Vars :=
  bs.foldl (pullBinding m) v

/-- The loop of `syncOutputsFromDll`. -/
def push (bs : List VarBinding) (v : Vars) (m : PlcMemory) : PlcMemory :=
  bs.foldl (pushBinding v) m

def syncInputsToDll (L : PlcLoader σ) (m : PlcMemory) (d : LogicState σ) :
    PlcMemory × LogicState σ :=
  let m' := m.syncMappings
  (m', { d with vars := pull L.bindings m' d.vars })

def syncOutputsFromDll (L : PlcLoader σ) (m : PlcMemory) (d : LogicState σ) :
    PlcMemory :=
  (push L.bindings d.vars m).syncMappings

end PlcLoader

end VPlc
