import VPlc.Core.Requests

/-!
# Sharing the memory

Any number of threads work on one memory at the same time, each at whatever its
clients or its own loop make it do next, which may depend on every answer so far.
The turns are single calls, in any order.

A request that makes one call which counts is as good as atomic: whatever the
order of the calls, memory and answers are those of the requests carried out one
at a time, each within its own turns (`requests_atomic`). All Modbus requests are
of this kind, and so are MC and XGT requests for one cell. Longer MC and XGT
requests are not, and for them the calls may be taken apart. What they still have
is their protocol to themselves: nothing that a thread of another protocol does
reaches them (`protocols_apart`).
-/

namespace VPlc

open Threads (Prog run)

variable {ι α : Type} [DecidableEq ι] (beyond : Nat → UInt8) (m : PlcMemory)

/-- Work in single calls, carried out in any order of the calls, has been carried
out one piece at a time. -/
theorem requests_atomic (threads : ι → Prog {w : Work // w.Single} (fun w => w.1.Ret) α)
    (schedule : List ι) :
    ∃ serial : List ι, serial.Sublist schedule ∧
      (run Call.exec ⟨m, fun i => (threads i).inline fun w => w.1.serve beyond⟩
        schedule).store =
        (run (fun w => w.1.process beyond) ⟨m, threads⟩ serial).store ∧
      ∀ i a, (run Call.exec ⟨m, fun i => (threads i).inline fun w => w.1.serve beyond⟩
          schedule).threads i = .ret a →
        (run (fun w => w.1.process beyond) ⟨m, threads⟩ serial).threads i = .ret a := by
  have hwhole : Threads.whole Call.exec (fun w : {w : Work // w.Single} => w.1.serve beyond) =
      fun w => w.1.process beyond :=
    funext fun w => congrFun (Work.whole_serve beyond) w.1
  rw [← hwhole]
  refine Threads.run_inline ?_ (fun w => Work.atomic_serve beyond m w.2) (fun _ => rfl) threads
    schedule
  exact fun c s hs a => (c.size_exec s a).trans (hs a)

theorem calls_inline {P : Protocol}
    (p : Prog {w : Work // w.protocol = P} (fun w => w.1.Ret) α) :
    (p.inline fun w => w.1.serve beyond).Calls (Call.Of P) := by
  induction p with
  | ret a => trivial
  | pause next ih => exact ih
  | call w next ih =>
      have hserve := Work.calls_serve beyond w.1
      rw [w.2] at hserve
      exact hserve.bind ih

/-- The threads of one protocol are answered as if those of the others were not
there, and leave the same in their areas. -/
theorem protocols_apart (protocol : ι → Protocol)
    (threads : (i : ι) → Prog {w : Work // w.protocol = protocol i} (fun w => w.1.Ret) α)
    (P : Protocol) (schedule : List ι) :
    P.Agree
        (run Call.exec ⟨m, fun i => (threads i).inline fun w => w.1.serve beyond⟩
          schedule).store
        (run Call.exec ⟨m, fun i => (threads i).inline fun w => w.1.serve beyond⟩
          (schedule.filter fun i => protocol i = P)).store ∧
      ∀ i, protocol i = P →
        (run Call.exec ⟨m, fun i => (threads i).inline fun w => w.1.serve beyond⟩
          schedule).threads i =
        (run Call.exec ⟨m, fun i => (threads i).inline fun w => w.1.serve beyond⟩
          (schedule.filter fun i => protocol i = P)).threads i := by
  let pool : Threads.Pool ι PlcMemory Call Call.Ret α :=
    ⟨m, fun i => (threads i).inline fun w => w.1.serve beyond⟩
  have hsame : P.Agree pool.store pool.store := .refl P m
  have hfilter := Threads.run_filter (Protocol.secludes P) (fun i => decide (protocol i = P))
    hsame (fun _ _ => rfl) ?_ ?_ schedule
  · simpa only [decide_eq_true_eq] using hfilter
  · intro i hi
    exact (calls_inline beyond (threads i)).mono fun c hc => hc.trans (of_decide_eq_true hi)
  · intro i hi
    refine (calls_inline beyond (threads i)).mono fun c hc heq => ?_
    exact of_decide_eq_false hi (hc.symm.trans heq)

end VPlc
