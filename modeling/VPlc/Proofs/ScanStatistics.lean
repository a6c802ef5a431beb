import VPlc.Core.Statistics
import VPlc.Loop.Running
import VPlc.Proofs.ScanSecrecy

/-!
# What the statistics of the scheduler are statistics of

The update divides by the tick, and the tick counts iterations. There are as many
scan times as iterations, so the average of these is their mean, and the maximum
is their maximum. A cycle is off its target only as seen from the one before, so
there is one deviation fewer; in its place the first iteration enters a zero. What
is called the jitter is the mean of the deviations and that zero (`Kept`), which
is the mean of the deviations just if there is nothing to report
(`statistics_named_iff`).

All of it is exact arithmetic, and as long as the tick has not gone around.
-/

namespace VPlc

open Loop (mean)

theorem Double.abs_rat (x : ℚ) : Double.abs x = |x| := by
  have hzero : (0.0 : ℚ) = 0 := by norm_num
  rw [Double.abs, hzero]
  by_cases hx : x < 0
  · rw [if_pos hx, abs_of_neg hx]
    exact zero_sub x
  · rw [if_neg hx, abs_of_nonneg (not_lt.mp hx)]

theorem Double.max_rat (x y : ℚ) : Double.max x y = Max.max x y := by
  rw [Double.max]
  split
  · next h => exact (max_eq_right (le_of_lt h)).symm
  · next h => exact (max_eq_left (not_lt.mp h)).symm

namespace PlcScheduler

variable {σ : Type} (L : PlcLoader σ)

/-! ## The tick -/

theorem run_events {D : Type} (s : Plant σ) (c : Cycle D) :
    run L s c.events = turns L s [c.writes .inputs, c.writes .logic, c.writes .outputs] := by
  simp only [Cycle.events, List.flatMap_cons, List.flatMap_nil, List.append_nil, run_append,
    turns, turn, List.foldl_cons, List.foldl_nil]

theorem tick_run_events {D : Type} {s : Plant σ} (h : s.phase = .inputs) (c : Cycle D) :
    (run L s c.events).phase = .inputs ∧ (run L s c.events).tick = s.tick + 1 := by
  rw [run_events]
  simp [turns, turn_eq, step, h]

/-! ## The samples -/

def scanTimes (cs : List (Cycle ℚ)) : List ℚ := cs.map fun c => c.stop - c.start

/-- How far each cycle but the first was off its target. -/
def deviations (target : ℚ) : List (Cycle ℚ) → List ℚ
  | c :: c' :: cs => |c'.start - c.start - target| :: deviations target (c' :: cs)
  | _ => []

variable {target : ℚ}

theorem deviations_concat (cs : List (Cycle ℚ)) (c c' : Cycle ℚ) :
    deviations target (cs ++ [c, c']) =
      deviations target (cs ++ [c]) ++ [|c'.start - c.start - target|] := by
  induction cs with
  | nil => rfl
  | cons a cs ih =>
      cases cs with
      | nil => rfl
      | cons b cs =>
          have hrest : deviations target (b :: cs ++ [c, c']) = _ := ih
          show |b.start - a.start - target| :: deviations target (b :: cs ++ [c, c']) = _
          rw [hrest]
          rfl

theorem length_deviations (cs : List (Cycle ℚ)) :
    (deviations target cs).length = cs.length - 1 := by
  induction cs with
  | nil => rfl
  | cons a cs ih =>
      cases cs with
      | nil => rfl
      | cons b cs =>
          show (deviations target (b :: cs)).length + 1 = _
          rw [ih]
          simp

theorem deviations_nonneg {cs : List (Cycle ℚ)} : ∀ d ∈ deviations target cs, 0 ≤ d := by
  induction cs with
  | nil => simp [deviations]
  | cons a cs ih =>
      cases cs with
      | nil => simp [deviations]
      | cons b cs => exact List.forall_mem_cons.mpr ⟨abs_nonneg _, ih⟩

/-- The statistics are those of the samples. -/
structure Named (target : ℚ) (cs : List (Cycle ℚ)) (stats : Stats ℚ) : Prop where
  avg : stats.avgScanTimeMs = mean (scanTimes cs)
  max : IsGreatest {t | t ∈ scanTimes cs} stats.maxScanTimeMs
  jitter : 2 ≤ cs.length → stats.jitterMs = mean (deviations target cs)

/-! ## The loop -/

/-- What the loop keeps after these iterations. -/
structure Kept (target : ℚ) (cs : List (Cycle ℚ)) (s : Looping σ ℚ) : Prop where
  phase : s.plant.phase = .inputs
  tick : s.plant.tick.toNat = cs.length
  prevStart : ∃ before last, cs = before ++ [last] ∧ s.prevStart = last.start
  avg : s.stats.avgScanTimeMs = mean (scanTimes cs)
  max : IsGreatest {t | t ∈ scanTimes cs} s.stats.maxScanTimeMs
  jitter : s.stats.jitterMs = mean (0 :: deviations target cs)

theorem kept_first {s : Looping σ ℚ} (hphase : s.plant.phase = .inputs)
    (htick : s.plant.tick = 0) (c : Cycle ℚ) : Kept target [c] (cycle L target s c) := by
  obtain ⟨hphase', htick'⟩ := tick_run_events L hphase c
  rw [htick, UInt64.zero_add] at htick'
  have hstats : (cycle L target s c).stats =
      { s.stats with
        totalTicks := 1
        lastScanTimeMs := c.stop - c.start
        avgScanTimeMs := c.stop - c.start
        maxScanTimeMs := c.stop - c.start
        jitterMs := 0.0 } := by
    simp only [cycle, Stats.update, htick', if_true]
  refine ⟨hphase', ?_, ⟨[], c, rfl, rfl⟩, ?_, ?_, ?_⟩
  · show (run L s.plant c.events).tick.toNat = 1
    rw [htick']
    rfl
  · rw [hstats]
    exact (Loop.mean_singleton _).symm
  · rw [hstats]
    simp [scanTimes]
  · rw [hstats]
    norm_num [deviations]

/-- Every iteration but the first enters a scan time and a deviation. -/
theorem stats_next {s : Looping σ ℚ} {c : Cycle ℚ} {n : ℕ}
    (hcount : (run L s.plant c.events).tick.toNat = n) (hn : 1 < n) :
    (cycle L target s c).stats =
      { s.stats with
        totalTicks := (run L s.plant c.events).tick
        lastScanTimeMs := c.stop - c.start
        avgScanTimeMs := s.stats.avgScanTimeMs +
          (c.stop - c.start - s.stats.avgScanTimeMs) / n
        maxScanTimeMs := Max.max s.stats.maxScanTimeMs (c.stop - c.start)
        jitterMs := s.stats.jitterMs +
          (|c.start - s.prevStart - target| - s.stats.jitterMs) / n } := by
  have hlater : 1 < (run L s.plant c.events).tick := by
    rw [UInt64.lt_iff_toNat_lt, hcount]
    exact hn
  have hne : (run L s.plant c.events).tick ≠ 1 := (UInt64.ne_of_lt hlater).symm
  have hdivisor : (Double.ofUInt64 (run L s.plant c.events).tick : ℚ) = n :=
    congrArg Nat.cast hcount
  simp only [cycle, Stats.update, if_neg hne, if_pos hlater, hdivisor, Double.max_rat,
    Double.abs_rat]

theorem kept_next {cs : List (Cycle ℚ)} {s : Looping σ ℚ} (h : Kept target cs s)
    (hlen : cs.length + 1 < 2 ^ 64) (c : Cycle ℚ) :
    Kept target (cs ++ [c]) (cycle L target s c) := by
  obtain ⟨hphase, htick⟩ := tick_run_events L h.phase c
  obtain ⟨before, last, hcs, hprev⟩ := h.prevStart
  have hpos : 0 < cs.length := by
    rw [hcs]
    simp
  have hcount : (run L s.plant c.events).tick.toNat = cs.length + 1 := by
    rw [htick, UInt64.toNat_add, h.tick]
    exact Nat.mod_eq_of_lt hlen
  have hstats := @stats_next _ L target s c _ hcount (by omega)
  have hdeviations : deviations target (cs ++ [c]) =
      deviations target cs ++ [|c.start - s.prevStart - target|] := by
    rw [hprev, hcs, List.append_assoc]
    exact deviations_concat before last c
  refine ⟨hphase, ?_, ⟨cs, c, rfl, rfl⟩, ?_, ?_, ?_⟩
  · rw [List.length_append]
    exact hcount
  · rw [hstats, scanTimes, List.map_append, List.map_singleton, Loop.mean_concat]
    simp [h.avg, scanTimes]
  · rw [hstats, scanTimes, List.map_append, List.map_singleton]
    exact Loop.isGreatest_concat h.max _
  · rw [hstats, hdeviations, ← List.cons_append, Loop.mean_concat]
    have hsamples : (0 :: deviations target cs ++ [|c.start - s.prevStart - target|]).length =
        cs.length + 1 := by
      simp only [List.cons_append, List.length_cons, List.length_append, length_deviations,
        List.length_nil]
      omega
    rw [hsamples, h.jitter]

theorem kept_loop {s : Looping σ ℚ} (hphase : s.plant.phase = .inputs)
    (htick : s.plant.tick = 0) {cs : List (Cycle ℚ)} (hne : cs ≠ [])
    (hlen : cs.length < 2 ^ 64) : Kept target cs (loop L target s cs) := by
  induction cs using List.reverseRecOn with
  | nil => exact absurd rfl hne
  | append_singleton cs c ih =>
      rw [loop, List.foldl_append, List.foldl_cons, List.foldl_nil, ← loop]
      by_cases hnil : cs = []
      · rw [hnil]
        exact kept_first L hphase htick c
      · rw [List.length_append, List.length_singleton] at hlen
        exact kept_next L (ih hnil (by omega)) hlen c

/-- The average and the maximum are what they are called. The jitter is just if
every cycle was on its target. -/
theorem statistics_named_iff (target : ℚ) (m : PlcMemory) (d : LogicState σ) (now : ℚ)
    (stats : Stats ℚ) {cs : List (Cycle ℚ)} (hne : cs ≠ []) (hlen : cs.length < 2 ^ 64) :
    Named target cs (loop L target (.start L m d now stats) cs).stats ↔
      ∀ x ∈ deviations target cs, x = 0 := by
  have hkept : Kept target cs (loop L target (.start L m d now stats) cs) :=
    kept_loop L rfl rfl hne hlen
  have hlength := @length_deviations target cs
  by_cases htwo : 2 ≤ cs.length
  · have hsome : deviations target cs ≠ [] := by
      rw [← List.length_pos_iff]
      omega
    rw [← Loop.mean_cons_zero_iff hsome deviations_nonneg, ← hkept.jitter]
    exact ⟨fun h => h.jitter htwo, fun h => ⟨hkept.avg, hkept.max, fun _ => h⟩⟩
  · have hnone : deviations target cs = [] := by
      rw [← List.length_eq_zero_iff]
      omega
    refine iff_of_true ⟨hkept.avg, hkept.max, fun h => absurd h htwo⟩ ?_
    rw [hnone]
    simp

/-- No logic, and a target of twenty milliseconds. -/
def idle : Looping Unit ℚ :=
  .start .empty .default ⟨⟨fun _ => 0, fun _ => 0, fun _ => 0, fun _ => 0⟩, ()⟩ 0 (.new 20)

/-- Two cycles of one millisecond, the second of which starts after `interval`. -/
def twoCycles (interval : ℚ) : List (Cycle ℚ) :=
  [⟨0, 1, fun _ => []⟩, ⟨interval, interval + 1, fun _ => []⟩]

theorem statistics_named_punctual :
    Named 20 (twoCycles 20) (loop .empty 20 idle (twoCycles 20)).stats := by
  have hzero : ∀ x ∈ deviations 20 (twoCycles 20), x = 0 := by
    norm_num [deviations, twoCycles]
  exact (statistics_named_iff .empty 20 _ _ 0 _ (List.cons_ne_nil _ _) (by decide)).mpr hzero

/-- One deviation, of ten milliseconds, is reported as five. -/
theorem jitter_understated :
    deviations 20 (twoCycles 30) = [10] ∧
      (loop .empty 20 idle (twoCycles 30)).stats.jitterMs = 5 ∧
      ¬ Named 20 (twoCycles 30) (loop .empty 20 idle (twoCycles 30)).stats := by
  have hdeviations : deviations 20 (twoCycles 30) = [10] := by
    norm_num [deviations, twoCycles]
  have hkept : Kept 20 (twoCycles 30) (loop .empty 20 idle (twoCycles 30)) :=
    kept_loop .empty rfl rfl (List.cons_ne_nil _ _) (by decide)
  have hjitter : (loop .empty 20 idle (twoCycles 30)).stats.jitterMs = 5 := by
    rw [hkept.jitter, hdeviations]
    norm_num [mean]
  refine ⟨hdeviations, hjitter, fun h => ?_⟩
  have hten := h.jitter (by decide)
  rw [hjitter, hdeviations, Loop.mean_singleton] at hten
  norm_num at hten

end PlcScheduler

end VPlc
