import VPlc.Core.Scheduler
import VPlc.Logic.State

/-!
# The statistics of the scheduler

An iteration of `PlcScheduler::loop` reads the clock before the first of its
three calls and after the last. `Cycle` is an iteration as seen from outside: the
two readings, in milliseconds, and what clients write before each call. From the
readings come the scan time and how far the cycle was off its target, and both
go into `Stats`.

The sleep at the end of an iteration only decides when the next one starts, so
the next `start` stands for it.
-/

namespace VPlc

/-- `std::abs`. -/
def Double.abs {D : Type} [Double D] (x : D) : D := if x < 0.0 then 0.0 - x else x

/-- `std::max`. -/
def Double.max {D : Type} [Double D] (x y : D) : D := if x < y then y else x

namespace PlcScheduler

/-- `PlcScheduler::Stats`. -/
structure Stats (D : Type) where
  totalTicks : UInt64
  targetCycleMs : D
  lastScanTimeMs : D
  avgScanTimeMs : D
  maxScanTimeMs : D
  jitterMs : D
  deriving DecidableEq

structure Cycle (D : Type) where
  start : D
  stop : D
  writes : Phase → List ClientWrite

/-- What happens to the plant in the meantime. -/
def Cycle.events {D : Type} (c : Cycle D) : List Event :=
  [Phase.inputs, .logic, .outputs].flatMap fun p => (c.writes p).map Event.client ++ [.step]

/-- The plant, and what the loop keeps of it. -/
structure Looping (σ D : Type) where
  plant : Plant σ
  prevStart : D
  stats : Stats D

section Loop

variable {σ D : Type} [Double D]

/-- The statistics of a scheduler that was just constructed. -/
def Stats.new (cycleTimeMs : D) : Stats D := ⟨0, cycleTimeMs, 0.0, 0.0, 0.0, 0.0⟩

/-- What precedes the loop, with what the clock says first. -/
def Looping.start (L : PlcLoader σ) (m : PlcMemory) (d : LogicState σ) (now : D)
    (stats : Stats D) : Looping σ D :=
  ⟨PlcScheduler.start L m d, now, stats⟩

variable [Div D]

def Stats.update (stats : Stats D) (tick : UInt64) (scanTimeMs jitter : D) : Stats D :=
  if tick = 1 then
    { stats with
      totalTicks := tick
      lastScanTimeMs := scanTimeMs
      avgScanTimeMs := scanTimeMs
      maxScanTimeMs := scanTimeMs
      jitterMs := 0.0 }
  else
    { stats with
      totalTicks := tick
      lastScanTimeMs := scanTimeMs
      avgScanTimeMs := stats.avgScanTimeMs +
        (scanTimeMs - stats.avgScanTimeMs) / Double.ofUInt64 tick
      maxScanTimeMs := Double.max stats.maxScanTimeMs scanTimeMs
      jitterMs := stats.jitterMs + (jitter - stats.jitterMs) / Double.ofUInt64 tick }

def cycle (L : PlcLoader σ) (targetCycleMs : D) (s : Looping σ D) (c : Cycle D) :
    Looping σ D :=
  let plant := PlcScheduler.run L s.plant c.events
  let scanTimeMs := c.stop - c.start
  let jitter :=
    if 1 < plant.tick then
      let actualCycleMs := c.start - s.prevStart
      Double.abs (actualCycleMs - targetCycleMs)
    else 0.0
  ⟨plant, c.start, s.stats.update plant.tick scanTimeMs jitter⟩

def loop (L : PlcLoader σ) (targetCycleMs : D) (s : Looping σ D) (cs : List (Cycle D)) :
    Looping σ D :=
  cs.foldl (cycle L targetCycleMs) s

end Loop

end PlcScheduler

end VPlc
