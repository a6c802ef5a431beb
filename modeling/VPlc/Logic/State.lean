import VPlc.Core.Loader
import Mathlib.Algebra.Order.Floor.Ring
import Mathlib.Data.Rat.Floor

/-!
# What the logics are written in

The three logics assign variables one at a time, and simulate their machines in
`double`. An assignment is a `set`, with one lemma for the variables it leaves
behind and one for the private state it does not touch.

Nothing is assumed of the arithmetic here. A `Double` has the operations the
sources use and no laws, so what is proved of a logic over any `Double` does not
depend on rounding. The rationals are one; `static_cast<uint16_t>` truncates,
and is only defined for a value that fits.
-/

namespace VPlc

namespace LogicState

variable {σ : Type} (d : LogicState σ) (i : UInt16)

def setIx (x : UInt8) : LogicState σ :=
  { d with vars := { d.vars with ix := Function.update d.vars.ix i x } }

def setQx (x : UInt8) : LogicState σ :=
  { d with vars := { d.vars with qx := Function.update d.vars.qx i x } }

def setIw (x : UInt16) : LogicState σ :=
  { d with vars := { d.vars with iw := Function.update d.vars.iw i x } }

def setMw (x : UInt16) : LogicState σ :=
  { d with vars := { d.vars with mw := Function.update d.vars.mw i x } }

variable (b : UInt8) (w : UInt16)

@[simp] theorem vars_setIx : (d.setIx i b).vars =
    { d.vars with ix := Function.update d.vars.ix i b } := rfl

@[simp] theorem vars_setQx : (d.setQx i b).vars =
    { d.vars with qx := Function.update d.vars.qx i b } := rfl

@[simp] theorem vars_setIw : (d.setIw i w).vars =
    { d.vars with iw := Function.update d.vars.iw i w } := rfl

@[simp] theorem vars_setMw : (d.setMw i w).vars =
    { d.vars with mw := Function.update d.vars.mw i w } := rfl

@[simp] theorem priv_setIx : (d.setIx i b).priv = d.priv := rfl
@[simp] theorem priv_setQx : (d.setQx i b).priv = d.priv := rfl
@[simp] theorem priv_setIw : (d.setIw i w).priv = d.priv := rfl
@[simp] theorem priv_setMw : (d.setMw i w).priv = d.priv := rfl

end LogicState

theorem sensor_ne_zero {p : Prop} [Decidable p] : (if p then (1 : UInt8) else 0) ≠ 0 ↔ p := by
  split
  · next h => exact iff_of_true (by decide) h
  · next h => exact iff_of_false (by decide) h

/-- The shared object a logic is built into: so many variables of each kind, from
zero up, and the two hooks under their generated names. -/
def Library.generated {σ : Type} (exports : VarType → Nat)
    (configInit : LogicState σ → LogicState σ)
    (configRun : UInt64 → LogicState σ → LogicState σ) : Library σ where
  hasSymbol name :=
    ([VarType.discreteInput, .coil, .inputRegister, .holdingRegister].flatMap fun t =>
      (List.range (exports t)).map fun i => t.symbolName (UInt16.ofNat i)).contains name
  initHook name := if name = "config_init__" then some configInit else none
  runHook name := if name = "config_run__" then some configRun else none

/-- What the logics use of `double`. -/
class Double (D : Type) extends Add D, Sub D, LT D, LE D, OfScientific D where
  decidableLT : DecidableLT D
  decidableLE : DecidableLE D
  ofUInt64 : UInt64 → D
  toUInt16 : D → UInt16

namespace Double

instance {D : Type} [Double D] : DecidableLT D := decidableLT
instance {D : Type} [Double D] : DecidableLE D := decidableLE

instance : Double ℚ where
  decidableLT := inferInstance
  decidableLE := inferInstance
  ofUInt64 n := n.toNat
  -- from 65536 on, and from -1 down, C++ leaves the value open
  toUInt16 x := UInt16.ofNat ⌊x⌋.toNat

end Double

end VPlc
