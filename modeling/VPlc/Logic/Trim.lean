import VPlc.Logic.State

/-!
# The trim line

`trim_logic.cpp`. A hanger conveyor takes a car body past four stations, and a
sequence of nine states drives one actuator after another: the docking cylinder
and the nutrunner at the first station, the glue jet at the second, the seat
lifter at the third, the quality gate at the fourth.

`configRun` has the three layers of the source: the emergency stop and the
lamps, the simulated machine, and the sequence. The machine's motions are
functions of their own, and each device is a function of the whole state, since
it reads a coil and writes a sensor or a feedback register.
-/

namespace VPlc

namespace Trim

/-- The internal states of the simulator. -/
structure Private (D : Type) where
  conveyorPos : D
  cockpitDockPos : D
  boltTorque : D
  glassGlueDisp : D
  glassPressLoad : D
  seatLifterPos : D
  glueTemp : D
  trimSfcState : Nat
  yellowFlash : UInt8
  prevConveyorRun : UInt8

/-- The library's variables. -/
abbrev Line (D : Type) := LogicState (Private D)

variable {D : Type}

def moveTo (pos : D) (d : Line D) : Line D :=
  { d with priv := { d.priv with conveyorPos := pos } }

def goto (state : Nat) (d : Line D) : Line D :=
  { d with priv := { d.priv with trimSfcState := state } }

@[simp] theorem vars_moveTo (pos : D) (d : Line D) :
    (moveTo pos d).vars = d.vars := rfl

@[simp] theorem vars_goto (state : Nat) (d : Line D) :
    (goto state d).vars = d.vars := rfl

@[simp] theorem state_goto (state : Nat) (d : Line D) :
    (goto state d).priv.trimSfcState = state := rfl

variable [Double D]

/-- `config_init__`. -/
def configInit (d : Line D) : Line D :=
  let d := d.setIx 0 1 |>.setIx 1 0 |>.setIx 2 0 |>.setIx 3 0
    |>.setIx 4 0 |>.setIx 5 0 |>.setIx 6 0 |>.setIx 7 0
  let d := d.setQx 0 0 |>.setQx 1 0 |>.setQx 2 0 |>.setQx 3 0
    |>.setQx 4 0 |>.setQx 5 0 |>.setQx 6 0 |>.setQx 7 0
  let d := d.setIw 0 0 |>.setIw 1 0 |>.setIw 2 0 |>.setIw 3 20
  let d := d.setMw 0 0 |>.setMw 1 0 |>.setMw 2 0 |>.setMw 3 450 |>.setMw 4 0
  { d with priv := ⟨0.0, 0.0, 0.0, 0.0, 0.0, 0.0, 20.0, 0, 0, 0⟩ }

/-! ## A. Emergency stop and lamps -/

/-- The `e_stop` branch. -/
def dropOutputs (tick : UInt64) (d : Line D) : Line D :=
  d.setQx 0 0 |>.setQx 1 0 |>.setQx 2 0 |>.setQx 3 0 |>.setQx 4 0 |>.setQx 5 0
    |>.setQx 6 (if tick % 10 < 5 then 1 else 0) |>.setQx 7 0

def lamps (tick : UInt64) (d : Line D) : Line D :=
  let d := if d.priv.trimSfcState ≠ 7 then d.setQx 6 0 else d
  let d :=
    if tick % 25 = 0 then
      let flash := if d.priv.yellowFlash = 0 then 1 else 0
      { d with priv := { d.priv with yellowFlash := flash } }
    else d
  d.setQx 7 (if d.priv.yellowFlash ≠ 0 then 1 else 0)

/-! ## B. The simulated machine -/

/-- A tick of the conveyor, without the stations. -/
def advance (pos : D) : D :=
  let pos := pos + 3.0
  if 1000.0 ≤ pos then 0.0 else pos

/-- A station's window, ten millimetres of the conveyor. -/
abbrev Within (lo hi pos : D) : Prop := lo ≤ pos ∧ pos < hi

/-- A vehicle in the window is clamped to its start. -/
def station (k : UInt16) (lo hi : D) (d : Line D) : Line D :=
  if Within lo hi d.priv.conveyorPos then (moveTo lo d).setIx k 1
  else d.setIx k 0

def conveyor (d : Line D) : Line D :=
  let d :=
    if d.vars.qx 0 ≠ 0 then
      let d := moveTo (advance d.priv.conveyorPos) d
      let d := station 1 200.0 210.0 d
      let d := if d.vars.mw 4 ≠ 1 then station 2 450.0 460.0 d else d.setIx 2 0
      let d := station 3 700.0 710.0 d
      station 4 900.0 910.0 d
    else d
  d.setIw 0 (Double.toUInt16 (d.priv.conveyorPos + 0.5))

/-- A cylinder between `0.0` and `1.0`: out while its coil is on, else in. -/
def travel (step : D) (coil : UInt8) (pos : D) : D :=
  let pos := if coil ≠ 0 then pos + step else pos - step
  let pos := if pos < 0.0 then 0.0 else pos
  if 1.0 < pos then 1.0 else pos

def dock (d : Line D) : Line D :=
  { d with
    priv := { d.priv with
      cockpitDockPos := travel 0.05 (d.vars.qx 1) d.priv.cockpitDockPos } }

/-- The jitter is unsigned, as in the source: it wraps below zero. -/
def tighten (tick : UInt64) (torque : D) : D :=
  let torque := torque + 22.5
  if 452.0 < torque then 450.0 + Double.ofUInt64 (tick % 5 - 2) else torque

def nutrunner (tick : UInt64) (d : Line D) : Line D :=
  let torque :=
    if d.vars.qx 2 ≠ 0 ∧ 0.95 ≤ d.priv.cockpitDockPos then
      tighten tick d.priv.boltTorque
    else 0.0
  { d with priv := { d.priv with boltTorque := torque } }.setIw 1
    (Double.toUInt16 (torque + 0.5))

def heater (d : Line D) : Line D :=
  let temp :=
    if d.priv.glueTemp < 40.0 then d.priv.glueTemp + 0.15
    else d.priv.glueTemp - 0.05
  { d with priv := { d.priv with glueTemp := temp } }.setIw 3
    (Double.toUInt16 (temp + 0.5))

def ramp (tick : UInt64) (load : D) : D :=
  let load := load + 10.0
  if 152.0 < load then 150.0 + Double.ofUInt64 (tick % 3 - 1) else load

def press (tick : UInt64) (d : Line D) : Line D :=
  let d :=
    if d.vars.qx 3 ≠ 0 then
      let load := ramp tick d.priv.glassPressLoad
      let d := { d with priv := { d.priv with glassPressLoad := load } }
      let d := if 145.0 ≤ load then d.setIx 6 1 else d
      if tick % 100 = 0 then d.setIx 7 (if 800 ≤ tick % 1000 then 1 else 0)
      else d
    else
      { d with priv := { d.priv with glassPressLoad := 0.0 } }.setIx 6 0
  d.setIw 2 (Double.toUInt16 (d.priv.glassPressLoad + 0.5))

def lifter (d : Line D) : Line D :=
  { d with
    priv := { d.priv with
      seatLifterPos := travel 0.033 (d.vars.qx 4) d.priv.seatLifterPos } }

def simulate (tick : UInt64) (d : Line D) : Line D :=
  lifter (press tick (heater (nutrunner tick (dock (conveyor d)))))

/-! ## C. The sequence -/

/-- State 7: the quality gate. -/
def qualityGate (d : Line D) : Line D :=
  let torquePass := 430 ≤ d.vars.iw 1 ∧ d.vars.iw 1 ≤ 470
  let glassPass := d.vars.mw 4 = 1 ∨
    (145 ≤ d.vars.iw 2 ∧ d.vars.iw 2 ≤ 155 ∧ d.vars.ix 7 = 0)
  let d := d.setMw 0 (d.vars.mw 0 + 1)
  if torquePass ∧ glassPass then
    d.setQx 5 1 |>.setQx 6 0 |>.setMw 1 (d.vars.mw 1 + 1)
  else
    d.setQx 5 0 |>.setQx 6 1 |>.setMw 2 (d.vars.mw 2 + 1)

def sequence (tick : UInt64) (d : Line D) : Line D :=
  match d.priv.trimSfcState with
  | 0 =>
      let d := d.setQx 0 1 |>.setQx 1 0 |>.setQx 2 0 |>.setQx 3 0
        |>.setQx 4 0 |>.setQx 5 0
      if d.vars.ix 1 ≠ 0 then goto 1 (d.setQx 0 0) else d
  | 1 =>
      let d := d.setQx 1 1
      if 0.95 ≤ d.priv.cockpitDockPos then goto 2 d else d
  | 2 =>
      let d := d.setQx 2 1
      if d.vars.mw 3 ≤ d.vars.iw 1 then goto 3 (d.setQx 2 0 |>.setQx 1 0) else d
  | 3 =>
      let d := d.setQx 0 1
      if d.vars.ix 2 ≠ 0 then goto 4 (d.setQx 0 0)
      else if d.vars.mw 4 = 1 then goto 5 d else d
  | 4 =>
      let d := d.setQx 3 1
      if d.vars.ix 6 ≠ 0 ∧ 148 ≤ d.vars.iw 2 then goto 5 (d.setQx 3 0) else d
  | 5 =>
      let d := d.setQx 0 1
      if d.vars.ix 3 ≠ 0 then goto 6 (d.setQx 0 0) else d
  | 6 =>
      let d := d.setQx 4 1
      if 0.95 ≤ d.priv.seatLifterPos then goto 7 (d.setQx 4 0) else d
  | 7 =>
      let d := d.setQx 0 1
      if d.vars.ix 4 ≠ 0 then goto 8 (qualityGate (d.setQx 0 0)) else d
  | 8 =>
      if tick % 50 = 0 then
        goto 0 ((moveTo 925.0 (d.setQx 5 0 |>.setQx 6 0)).setIx 4 0)
      else d
  | _ => d

/-- `config_run__`. -/
def configRun (tick : UInt64) (d : Line D) : Line D :=
  if d.vars.ix 5 ≠ 0 then dropOutputs tick d
  else
    let d := simulate tick (lamps tick d)
    if d.vars.ix 0 ≠ 0 then sequence tick d else goto 0 d

/-! ## The shared object -/

/-- The variables the object exports: so many of each kind, from zero up. -/
def exports : VarType → Nat
  | .discreteInput => 8
  | .coil => 8
  | .inputRegister => 4
  | .holdingRegister => 5

def library : Library (Private D) := Library.generated exports configInit configRun

def loader : PlcLoader (Private D) :=
  (PlcLoader.loadLibrary (fun _ => some library) "libtrim_logic.so").1

end Trim

end VPlc
