import VPlc.Logic.State

/-!
# The assembly line

`assembly_logic.cpp`. A conveyor brings a chassis to the assembly station, where
a robot arm with a lift, a rotary drive and a gripper puts a part on it.

`configRun` has the two layers of the source: the simulated machine, behind the
light curtain, and the sequence. The curtain cuts the lift and the rotary drive
in whatever state the sequence is, and keeps the gripper closed. The sequence is
not told: once the curtain is free it goes on where it was.
-/

namespace VPlc

namespace Assembly

/-- The internal states of the simulator. -/
structure Private (D : Type) where
  conveyorPos : D
  liftPos : D
  rotatePos : D
  clampPos : D
  sfcState : Nat
  alarmFlash : UInt8

/-- The library's variables. -/
abbrev Line (D : Type) := LogicState (Private D)

variable {D : Type}

def moveTo (pos : D) (d : Line D) : Line D :=
  { d with priv := { d.priv with conveyorPos := pos } }

def goto (state : Nat) (d : Line D) : Line D :=
  { d with priv := { d.priv with sfcState := state } }

variable [Double D] [Mul D]

/-- `config_init__`. -/
def configInit (d : Line D) : Line D :=
  let d := d.setIx 0 1 |>.setIx 1 0 |>.setIx 2 1 |>.setIx 3 1
    |>.setIx 4 0 |>.setIx 5 0 |>.setIx 6 0 |>.setIx 7 0
  let d := d.setQx 0 0 |>.setQx 1 0 |>.setQx 2 0 |>.setQx 3 0
    |>.setQx 4 0 |>.setQx 5 0 |>.setQx 6 0
  let d := d.setIw 0 0 |>.setMw 0 0 |>.setMw 1 200 |>.setMw 2 0 |>.setMw 3 0
  { d with priv := ⟨0.0, 0.0, 0.0, 0.0, 0, 0⟩ }

/-! ## 1. The simulated machine -/

/-- The light curtain is interrupted. -/
def eStop (d : Line D) : Bool := decide (d.vars.ix 7 ≠ 0)

/-- The `e_stop` branch. The clamp stays on. -/
def cutOutputs (tick : UInt64) (d : Line D) : Line D :=
  let d := d.setQx 0 0 |>.setQx 1 0 |>.setQx 3 0 |>.setQx 4 0 |>.setQx 5 0
  let flash :=
    if tick % 10 = 0 then (if d.priv.alarmFlash = 0 then 1 else 0)
    else d.priv.alarmFlash
  { d with priv := { d.priv with alarmFlash := flash } }.setQx 6
    (if flash ≠ 0 then 1 else 0)

def lightCurtain (tick : UInt64) (d : Line D) : Line D :=
  if eStop d then cutOutputs tick d else d.setQx 5 1 |>.setQx 6 0

/-- A tick of the conveyor, with the station's window and the end of the line. -/
def transport (d : Line D) : Line D :=
  let pos := d.priv.conveyorPos + Double.ofUInt64 (d.vars.mw 1).toUInt64 * 0.02
  let d :=
    if 500.0 ≤ pos ∧ pos < 520.0 then (moveTo 500.0 d).setIx 1 1
    else (moveTo pos d).setIx 1 0
  if 1000.0 ≤ d.priv.conveyorPos then (moveTo 0.0 d).setMw 0 (d.vars.mw 0 + 1) else d

def conveyor (d : Line D) : Line D :=
  let d := if d.vars.qx 0 ≠ 0 ∧ eStop d = false then transport d else d
  d.setIw 0 (Double.toUInt16 (d.priv.conveyorPos + 0.5))

/-- A cylinder between `0.0` and `1.0`. -/
def travel (step : D) (out : Bool) (pos : D) : D :=
  let pos := if out then pos + step else pos - step
  let pos := if pos < 0.0 then 0.0 else pos
  if 1.0 < pos then 1.0 else pos

/-- A limit sensor. -/
def limit (pos : D) : UInt8 := if 0.95 ≤ pos then 1 else 0

def lift (d : Line D) : Line D :=
  let pos := travel 0.04 (decide (d.vars.qx 1 ≠ 0) && !eStop d) d.priv.liftPos
  { d with priv := { d.priv with liftPos := pos } }.setIx 6 (limit pos)

def rotate (d : Line D) : Line D :=
  let pos := travel 0.033 (decide (d.vars.qx 3 ≠ 0) && !eStop d) d.priv.rotatePos
  { d with priv := { d.priv with rotatePos := pos } }.setIx 5 (limit pos)

/-- The clamp holds through an emergency stop. -/
def clamp (d : Line D) : Line D :=
  let pos := travel 0.1 (decide (d.vars.qx 2 ≠ 0)) d.priv.clampPos
  { d with priv := { d.priv with clampPos := pos } }.setIx 4 (limit pos)

def home (d : Line D) : Line D :=
  d.setIx 3 (if d.priv.liftPos ≤ 0.05 ∧ d.priv.rotatePos ≤ 0.05 then 1 else 0)

def parts (d : Line D) : Line D :=
  if (d.vars.ix 3 ≠ 0 ∧ d.vars.qx 2 = 0) ∨ d.vars.mw 3 = 1 then d.setIx 2 1 else d

def simulate (tick : UInt64) (d : Line D) : Line D :=
  parts (home (clamp (rotate (lift (conveyor (lightCurtain tick d))))))

/-! ## 2. The sequence -/

def sequence (d : Line D) : Line D :=
  match d.priv.sfcState with
  | 0 =>
      let d := d.setQx 0 0 |>.setQx 1 0 |>.setQx 2 0 |>.setQx 3 0 |>.setQx 4 0
        |>.setIx 1 0
      if d.vars.mw 2 = 1 then goto 8 ((moveTo 0.0 (d.setMw 2 0)).setQx 0 1) else d
  | 8 =>
      let d := d.setQx 0 1
      if 500.0 ≤ d.priv.conveyorPos then
        let d := (moveTo 500.0 d).setIx 1 1 |>.setQx 0 0
        if d.vars.ix 2 ≠ 0 then goto 1 d else d
      else d
  | 1 =>
      let d := d.setQx 1 1
      if d.vars.ix 6 ≠ 0 then goto 2 d else d
  | 2 =>
      let d := d.setQx 2 1
      if d.vars.ix 4 ≠ 0 then goto 3 (d.setIx 2 0) else d
  | 3 =>
      let d := d.setQx 1 0
      if d.priv.liftPos ≤ 0.05 then goto 4 d else d
  | 4 =>
      let d := d.setQx 3 1
      if d.vars.ix 5 ≠ 0 then goto 5 d else d
  | 5 =>
      let d := d.setQx 1 1
      if d.vars.ix 6 ≠ 0 then goto 6 d else d
  | 6 =>
      let d := d.setQx 2 0
      if d.priv.clampPos ≤ 0.05 then goto 7 (d.setQx 4 1) else d
  | 7 =>
      let d := d.setQx 1 0 |>.setQx 3 0
      if d.vars.ix 3 ≠ 0 then goto 0 ((moveTo 525.0 (d.setQx 4 0)).setIx 1 0) else d
  | _ => d

/-- `config_run__`. -/
def configRun (tick : UInt64) (d : Line D) : Line D :=
  let stopped := eStop d
  let d := simulate tick d
  if d.vars.ix 0 ≠ 0 ∧ stopped = false then sequence d
  else if d.vars.ix 0 = 0 then goto 0 d else d

/-! ## The shared object -/

/-- The variables the object exports: so many of each kind, from zero up. -/
def exports : VarType → Nat
  | .discreteInput => 8
  | .coil => 7
  | .inputRegister => 1
  | .holdingRegister => 4

def library : Library (Private D) := Library.generated exports configInit configRun

def loader : PlcLoader (Private D) :=
  (PlcLoader.loadLibrary (fun _ => some library) "libassembly_logic.so").1

end Assembly

end VPlc
