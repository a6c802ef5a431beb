import VPlc.Logic.State

/-!
# The water tank

`mock_logic.cpp`. A tank with an inlet, an outlet and a leak. In AUTO the valves
follow a hysteresis: fill from the low limit up to the high one, then drain. In
MANUAL they are whoever's who writes the coils.
-/

namespace VPlc

namespace Mock

/-- The internal states of the simulator. -/
structure Private (D : Type) where
  levelSim : D
  prevInletValve : UInt8
  autoState : UInt8

/-- The library's variables. -/
abbrev Tank (D : Type) := LogicState (Private D)

variable {D : Type} [Double D]

/-- `config_init__`. -/
def configInit (d : Tank D) : Tank D :=
  let d := d.setIx 0 0 |>.setIx 1 0 |>.setIx 2 0 |>.setQx 0 0 |>.setQx 1 0 |>.setQx 2 0
  let d := d.setIw 0 500 |>.setMw 0 0 |>.setMw 1 500
  { d with priv := ⟨500.0, 0, 0⟩ }

/-! ## 1. The tank -/

/-- What the leak and the two valves make of the level in a scan. -/
def flow (inlet outlet : UInt8) (level : D) : D :=
  -- `-0.02`: a `Double` has no negation, and this difference is exact
  let change : D := 0.0 - 0.02
  let change := if inlet ≠ 0 then change + 0.4 else change
  let change := if outlet ≠ 0 then change - 0.3 else change
  let level := level + change
  let level := if level < 0.0 then 0.0 else level
  if 1000.0 < level then 1000.0 else level

def simulate (d : Tank D) : Tank D :=
  let level := flow (d.vars.qx 0) (d.vars.qx 1) d.priv.levelSim
  let d := { d with priv := { d.priv with levelSim := level } }
  d.setIw 0 (Double.toUInt16 (level + 0.5))
    |>.setIx 1 (if level ≤ 150.0 then 1 else 0)
    |>.setIx 2 (if 850.0 ≤ level then 1 else 0)

/-! ## 2. The valves -/

def setAutoState (x : UInt8) (d : Tank D) : Tank D :=
  { d with priv := { d.priv with autoState := x } }

def control (d : Tank D) : Tank D :=
  if d.vars.ix 0 ≠ 0 then
    let d :=
      if d.vars.ix 1 ≠ 0 then setAutoState 1 d
      else if d.vars.ix 2 ≠ 0 then setAutoState 0 d
      else d
    if d.priv.autoState = 1 then d.setQx 0 1 |>.setQx 1 0 else d.setQx 0 0 |>.setQx 1 1
  else setAutoState (if d.vars.qx 0 ≠ 0 then 1 else 0) d

/-- The activations of the inlet, and the run lamp. -/
def monitor (d : Tank D) : Tank D :=
  let d :=
    if d.vars.qx 0 ≠ 0 ∧ d.priv.prevInletValve = 0 then d.setMw 0 (d.vars.mw 0 + 1) else d
  { d with priv := { d.priv with prevInletValve := d.vars.qx 0 } }.setQx 2 1

/-- `config_run__`. -/
def configRun (_ : UInt64) (d : Tank D) : Tank D := monitor (control (simulate d))

/-! ## The shared object -/

/-- The variables the object exports: so many of each kind, from zero up. -/
def exports : VarType → Nat
  | .discreteInput => 3
  | .coil => 3
  | .inputRegister => 1
  | .holdingRegister => 2

def library : Library (Private D) := Library.generated exports configInit configRun

def loader : PlcLoader (Private D) :=
  (PlcLoader.loadLibrary (fun _ => some library) "libmock_logic.so").1

end Mock

end VPlc
