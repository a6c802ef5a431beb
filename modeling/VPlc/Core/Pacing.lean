import Mathlib.Data.Rat.Defs
import VPlc.Core.Statistics

/-!
# The pace of the scheduler

Between two iterations of `PlcScheduler::loop` is a sleep. The loop keeps the time
it is to wake up at, moves it on by the target at the end of an iteration, and
moves it to the present if that has passed. The clock is read once more for this;
`Iteration` is a cycle with that reading. Times are in milliseconds here, and
`sleep_until` is what it is documented to be: it does not return early
(`Clocked`).
-/

namespace VPlc

namespace PlcScheduler

/-- A cycle, and the clock at its end. -/
structure Iteration extends Cycle ℚ where
  now : ℚ

/-- What the loop keeps, with `next_wakeup`. -/
structure Paced (σ : Type) where
  looping : Looping σ ℚ
  nextWakeup : ℚ

/-- `static_cast<long long>`. -/
def truncate (x : ℚ) : Int := x.num.tdiv x.den

/-- The whole microseconds of the target. -/
def period (targetCycleMs : ℚ) : ℚ := truncate (targetCycleMs * 1000) / 1000

variable {σ : Type}

/-- What precedes the loop; the clock is read twice. -/
def Paced.start (L : PlcLoader σ) (m : PlcMemory) (d : LogicState σ) (prevStart wakeup : ℚ)
    (stats : Stats ℚ) : Paced σ :=
  ⟨Looping.start L m d prevStart stats, wakeup⟩

/-- An iteration of the loop, up to its sleep. -/
def iterate (L : PlcLoader σ) (targetCycleMs : ℚ) (s : Paced σ) (i : Iteration) : Paced σ :=
  let looping := cycle L targetCycleMs s.looping i.toCycle
  let nextWakeup := s.nextWakeup + period targetCycleMs
  ⟨looping, if nextWakeup < i.now then i.now else nextWakeup⟩

/-- The iteration misses its deadline. -/
def Overruns (targetCycleMs : ℚ) (s : Paced σ) (i : Iteration) : Prop :=
  s.nextWakeup + period targetCycleMs < i.now

end PlcScheduler

end VPlc
