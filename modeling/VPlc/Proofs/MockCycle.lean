import VPlc.Loop.TwoPoint
import VPlc.Proofs.MockLevel
import VPlc.Proofs.ScanProgress

/-!
# The tank goes on filling and draining

The tank simulator is a two-point controller for its level. In AUTO a call of the
logic is a step of `tank`, between 150 and 850, once one call has put the valves in
order (`Poised`, `point_configRun`); and each time the inlet opens the activation
counter goes up by one. So as long as the mode switch stays in AUTO the inlet opens
and closes once in 4502 scans at least, from whatever state MANUAL has left the
plant in (`tank_cycles`).
-/

namespace VPlc

open PlcScheduler
open Loop (TwoPoint)

namespace Mock

/-! ## The controller -/

def tank : TwoPoint ℚ := ⟨150, 850, 0.38, 0.32⟩

theorem sane_tank : tank.Sane := by
  refine ⟨?_, ?_, ?_⟩ <;> norm_num [tank]

/-- Rising is having the inlet open. -/
def point (d : Tank ℚ) : TwoPoint.Point ℚ := ⟨decide (d.vars.qx 0 ≠ 0), d.priv.levelSim⟩

/-- The level is inside the walls. -/
def Walled (d : Tank ℚ) : Prop := 0 ≤ d.priv.levelSim ∧ d.priv.levelSim ≤ 1000

/-- As a call in AUTO leaves it: one valve is open, the hysteresis and the edge
detection know which, and the level has not got to the limit. -/
structure Poised (d : Tank ℚ) : Prop where
  outlet : d.vars.qx 1 = 0 ↔ d.vars.qx 0 ≠ 0
  state : d.priv.autoState = 1 ↔ d.vars.qx 0 ≠ 0
  edge : d.priv.prevInletValve = d.vars.qx 0
  inside : tank.Inside (point d)

/-! ## One call -/

theorem flow_walls (inlet outlet : UInt8) (level : ℚ) :
    0 ≤ flow inlet outlet level ∧ flow inlet outlet level ≤ 1000 := by
  have hwalls (x : ℚ) :
      0 ≤ (if 1000.0 < (if x < 0.0 then 0.0 else x) then 1000.0 else if x < 0.0 then 0.0 else x) ∧
        (if 1000.0 < (if x < 0.0 then 0.0 else x) then 1000.0
          else if x < 0.0 then 0.0 else x) ≤ 1000 := by
    norm_num
    by_cases hx : x < 0
    · rw [if_pos hx, if_neg (by norm_num)]
      norm_num
    · rw [if_neg hx]
      by_cases hhigh : 1000 < x
      · rw [if_pos hhigh]
        norm_num
      · rw [if_neg hhigh]
        exact ⟨not_lt.mp hx, not_lt.mp hhigh⟩
  exact hwalls _

theorem flow_poised {d : Tank ℚ} (h : Poised d) (hwalled : Walled d) :
    flow (d.vars.qx 0) (d.vars.qx 1) d.priv.levelSim = tank.move (point d) := by
  have hinside := h.inside
  obtain ⟨hlo, hhi⟩ := hwalled
  unfold TwoPoint.Inside point tank at hinside
  unfold TwoPoint.move point tank
  by_cases hin : d.vars.qx 0 = 0
  · have hout : d.vars.qx 1 ≠ 0 := fun hout => h.outlet.mp hout hin
    have hopen : decide (d.vars.qx 0 ≠ 0) = false := decide_eq_false (not_not.mpr hin)
    rw [hopen, if_neg Bool.false_ne_true] at hinside ⊢
    dsimp only at hinside ⊢
    simp only [flow, if_pos hout, if_neg (not_not.mpr hin)]
    norm_num
    have hfloor : ¬ d.priv.levelSim < 8 / 25 := by linarith
    rw [if_neg hfloor, if_neg (by linarith)]
    ring
  · have hout : d.vars.qx 1 = 0 := h.outlet.mpr hin
    have hopen : decide (d.vars.qx 0 ≠ 0) = true := decide_eq_true hin
    rw [hopen, if_pos rfl] at hinside ⊢
    dsimp only at hinside ⊢
    simp only [flow, if_neg (not_not.mpr hout), if_pos hin]
    norm_num
    have hfloor : ¬ d.priv.levelSim + 19 / 50 < 0 := by linarith
    rw [if_neg hfloor, if_neg (by linarith)]

/-- Whether the hysteresis is in its filling state after this level. -/
def fills (level : ℚ) (autoState : UInt8) : Bool :=
  if level ≤ 150 then true else if 850 ≤ level then false else autoState == 1

theorem control_auto {d : Tank ℚ} (hauto : d.vars.ix 0 ≠ 0)
    (hlow : d.vars.ix 1 ≠ 0 ↔ d.priv.levelSim ≤ 150)
    (hhigh : d.vars.ix 2 ≠ 0 ↔ 850 ≤ d.priv.levelSim) {b : Bool}
    (hfills : fills d.priv.levelSim d.priv.autoState = b) :
    (control d).vars.qx 0 = b.toUInt8 ∧ (control d).vars.qx 1 = (!b).toUInt8 ∧
      ((control d).priv.autoState = 1 ↔ b = true) ∧
      (control d).priv.prevInletValve = d.priv.prevInletValve ∧
      (control d).vars.mw = d.vars.mw := by
  have hset (d' : Tank ℚ) (hstate : d'.priv.autoState = 1 ↔ b = true) :
      let r := if d'.priv.autoState = 1 then d'.setQx 0 1 |>.setQx 1 0
        else d'.setQx 0 0 |>.setQx 1 1
      r.vars.qx 0 = b.toUInt8 ∧ r.vars.qx 1 = (!b).toUInt8 ∧
        (r.priv.autoState = 1 ↔ b = true) ∧
        r.priv.prevInletValve = d'.priv.prevInletValve ∧ r.vars.mw = d'.vars.mw := by
    cases b with
    | true =>
        rw [if_pos (hstate.mpr rfl)]
        exact ⟨rfl, rfl, hstate, rfl, rfl⟩
    | false =>
        rw [if_neg fun h => Bool.false_ne_true (hstate.mp h)]
        exact ⟨rfl, rfl, hstate, rfl, rfl⟩
  rw [fills] at hfills
  rw [control, if_pos hauto]
  by_cases hempty : d.priv.levelSim ≤ 150
  · rw [if_pos hempty] at hfills
    rw [if_pos (hlow.mpr hempty)]
    exact hset (setAutoState 1 d) (iff_of_true rfl hfills.symm)
  rw [if_neg hempty] at hfills
  rw [if_neg fun h => hempty (hlow.mp h)]
  by_cases hfull : 850 ≤ d.priv.levelSim
  · rw [if_pos hfull] at hfills
    rw [if_pos (hhigh.mpr hfull)]
    refine hset (setAutoState 0 d) (iff_of_false (by simp [setAutoState]) ?_)
    rw [← hfills]
    exact Bool.false_ne_true
  · rw [if_neg hfull] at hfills
    rw [if_neg fun h => hfull (hhigh.mp h)]
    refine hset d ?_
    rw [← hfills, beq_iff_eq]

theorem configRun_auto (tick : UInt64) {d : Tank ℚ} (hauto : d.vars.ix 0 ≠ 0) {level : ℚ}
    (hlevel : flow (d.vars.qx 0) (d.vars.qx 1) d.priv.levelSim = level) {b : Bool}
    (hfills : fills level d.priv.autoState = b) :
    (configRun tick d).priv.levelSim = level ∧
      (configRun tick d).vars.qx 0 = b.toUInt8 ∧ (configRun tick d).vars.qx 1 = (!b).toUInt8 ∧
      ((configRun tick d).priv.autoState = 1 ↔ b = true) ∧
      (configRun tick d).priv.prevInletValve = b.toUInt8 ∧
      (configRun tick d).vars.mw 0 =
        if b = true ∧ d.priv.prevInletValve = 0 then d.vars.mw 0 + 1 else d.vars.mw 0 := by
  obtain ⟨hlow, hhigh⟩ := ix_simulate d
  have hsimulated : (simulate d).priv.levelSim = level := hlevel
  have hfills' : fills (simulate d).priv.levelSim (simulate d).priv.autoState = b := by
    rw [hsimulated]
    exact hfills
  obtain ⟨hin, hout, hstate, hprev, hmw⟩ := control_auto (d := simulate d) hauto hlow hhigh hfills'
  obtain ⟨hkept, -⟩ := control_same (simulate d)
  have hprev : (control (simulate d)).priv.prevInletValve = d.priv.prevInletValve := hprev
  have hmw : (control (simulate d)).vars.mw = d.vars.mw := hmw
  rw [hsimulated] at hkept
  obtain ⟨c, hc⟩ : ∃ c, control (simulate d) = c := ⟨_, rfl⟩
  rw [hc] at hin hout hstate hprev hmw hkept
  have hopen : c.vars.qx 0 ≠ 0 ↔ b = true := by
    rw [hin]
    cases b <;> decide
  have hrun : configRun tick d = monitor c := congrArg monitor hc
  obtain ⟨hin', hout', -, hkept'⟩ := monitor_same c
  rw [hrun, hin', hout', hkept', hin, hout, hkept]
  refine ⟨rfl, rfl, rfl, ?_, ?_, ?_⟩
  · rw [← hstate]
    unfold monitor
    split <;> exact Iff.rfl
  · rw [← hin]
    unfold monitor
    split <;> rfl
  · rw [← hprev, ← hmw]
    unfold monitor
    by_cases hedge : c.vars.qx 0 ≠ 0 ∧ c.priv.prevInletValve = 0
    · rw [if_pos hedge, if_pos ⟨hopen.mp hedge.1, hedge.2⟩]
      rfl
    · rw [if_neg hedge, if_neg fun h => hedge ⟨hopen.mpr h.1, h.2⟩]
      rfl

/-- Whatever it starts from, a call in AUTO puts the valves in order. -/
theorem poised_configRun (tick : UInt64) {d : Tank ℚ} (hauto : d.vars.ix 0 ≠ 0) :
    Poised (configRun tick d) := by
  obtain ⟨level, hlevel⟩ : ∃ level, flow (d.vars.qx 0) (d.vars.qx 1) d.priv.levelSim = level :=
    ⟨_, rfl⟩
  obtain ⟨b, hb⟩ : ∃ b, fills level d.priv.autoState = b := ⟨_, rfl⟩
  obtain ⟨hkept, hin, hout, hstate, hprev, -⟩ := configRun_auto tick hauto hlevel hb
  have hopen : (configRun tick d).vars.qx 0 ≠ 0 ↔ b = true := by
    rw [hin]
    cases b <;> decide
  refine ⟨?_, hstate.trans hopen.symm, hprev.trans hin.symm, ?_⟩
  · rw [hopen, hout]
    cases b <;> decide
  · have hrising : decide ((configRun tick d).vars.qx 0 ≠ 0) = b := by
      rw [Bool.eq_iff_iff, decide_eq_true_eq]
      exact hopen
    rw [TwoPoint.Inside, point, hkept, hrising]
    rw [fills] at hb
    split
    · next hrises =>
        subst hrises
        show level < 850
        by_contra hfull
        rw [if_neg (by linarith), if_pos (not_lt.mp hfull)] at hb
        cases hb
    · next hfalls =>
        show 150 < level
        by_contra hempty
        rw [if_pos (not_lt.mp hempty)] at hb
        exact hfalls hb.symm

/-- From there on a call is a step of the controller, and counts a turn upwards. -/
theorem point_configRun (tick : UInt64) {d : Tank ℚ} (hauto : d.vars.ix 0 ≠ 0) (h : Poised d)
    (hwalled : Walled d) :
    point (configRun tick d) = tank.next (point d) ∧
      (d.vars.qx 0 = 0 → (configRun tick d).vars.qx 0 ≠ 0 →
        (configRun tick d).vars.mw 0 = d.vars.mw 0 + 1) := by
  have hlevel := flow_poised h hwalled
  obtain ⟨b, hb⟩ : ∃ b, fills (tank.move (point d)) d.priv.autoState = b := ⟨_, rfl⟩
  obtain ⟨hkept, hin, -, -, -, hmw⟩ := configRun_auto tick hauto hlevel hb
  have hopen : (configRun tick d).vars.qx 0 ≠ 0 ↔ b = true := by
    rw [hin]
    cases b <;> decide
  have hrising : (d.priv.autoState == 1) = decide (d.vars.qx 0 ≠ 0) := by
    rw [Bool.eq_iff_iff, beq_iff_eq, decide_eq_true_eq]
    exact h.state
  have hrises : decide ((configRun tick d).vars.qx 0 ≠ 0) = b := by
    rw [Bool.eq_iff_iff, decide_eq_true_eq]
    exact hopen
  refine ⟨?_, fun hclosed hopened => ?_⟩
  · rw [point, hkept, hrises, ← hb, fills, hrising]
    rfl
  · rw [hmw, if_pos ⟨hopen.mp hopened, h.edge.trans hclosed⟩]

/-! ## The plant -/

theorem walled_configRun (tick : UInt64) (d : Tank ℚ) : Walled (configRun tick d) := by
  obtain ⟨hlevel, -⟩ := control_same (simulate d)
  obtain ⟨-, -, -, hkept⟩ := monitor_same (control (simulate d))
  have hflow : (configRun tick d).priv.levelSim =
      flow (d.vars.qx 0) (d.vars.qx 1) d.priv.levelSim := hkept.trans hlevel
  rw [Walled, hflow]
  exact flow_walls _ _ _

theorem walled_pulled (m : PlcMemory) {d : Tank ℚ} (h : Walled d) :
    Walled (pulled loader m d) := by
  rw [Walled, priv_pulled]
  exact h

theorem scans_walled : Scans (loader (D := ℚ)) (fun _ => True) Walled Walled where
  inputs {_ m} h _ := walled_pulled m h
  logic {d} tick _ := by
    rw [loads.runLogic]
    exact walled_configRun tick d

theorem walled_plantAfter (m : PlcMemory) (d : Tank ℚ) (es : List Event) :
    Walled (plantAfter loader m d es).dll := by
  have hinit : Walled (loader.initLogic d) := by
    rw [loads.initLogic]
    show (0 : ℚ) ≤ 500.0 ∧ (500.0 : ℚ) ≤ 1000
    norm_num
  exact (scans_walled.plantAfter hinit m es).always

/-- The call opens the inlet, and counts it. -/
def Opens (tick : UInt64) (d : Tank ℚ) : Prop :=
  d.vars.qx 0 = 0 ∧ (loader.runLogic tick d).vars.qx 0 ≠ 0 ∧
    (loader.runLogic tick d).vars.mw 0 = d.vars.mw 0 + 1

/-- The call closes it. -/
def Closes (tick : UInt64) (d : Tank ℚ) : Prop :=
  d.vars.qx 0 ≠ 0 ∧ (loader.runLogic tick d).vars.qx 0 = 0

/-- What is left to do until a turn of the controller, where the first call puts
the valves in order. -/
noncomputable def callsUntil (turn : TwoPoint.Point ℚ → Nat) (most : Nat) (d : Tank ℚ) : Nat :=
  open Classical in if Poised d then turn (point d) else most + 1

theorem Poised.congr {d d' : Tank ℚ} (hqx : d'.vars.qx = d.vars.qx) (hpriv : d'.priv = d.priv) :
    Poised d' ↔ Poised d := by
  have hpoint : point d' = point d := by
    rw [point, point, hqx, hpriv]
  constructor <;> rintro ⟨hout, hstate, hedge, hin⟩
  · rw [hqx] at hout hstate hedge
    rw [hpriv] at hstate hedge
    rw [hpoint] at hin
    exact ⟨hout, hstate, hedge, hin⟩
  · rw [← hqx] at hout hstate hedge
    rw [← hpriv] at hstate hedge
    rw [← hpoint] at hin
    exact ⟨hout, hstate, hedge, hin⟩

section Advances

variable {turn : TwoPoint.Point ℚ → Nat} {most : Nat} {goal : UInt64 → Tank ℚ → Prop}

/-- A turn that every other step brings nearer, and that is never further away
than `most`. -/
theorem advances
    (hnear : ∀ {d : Tank ℚ} (tick : UInt64), d.vars.ix 0 ≠ 0 → Poised d → Walled d →
      ¬ goal tick d → turn (tank.next (point d)) + 1 ≤ turn (point d))
    (hmost : ∀ {d : Tank ℚ}, Poised d → Walled d → turn (point d) ≤ most) :
    Advances loader (·.readDiscreteInput 0 = true) Walled
      (fun d => Walled d ∧ d.vars.ix 0 ≠ 0) goal (callsUntil turn most) where
  inputs {d m} h hauto := by
    have hqx := pulled_qx loader d hauto
    have hmode := pulled_ix loader m d (loads.bound (k := 0) (by decide)) (.inl rfl)
    refine ⟨⟨walled_pulled m h, hmode.mpr hauto⟩, le_of_eq ?_⟩
    have hpoint : point (pulled loader m d) = point d := by
      rw [point, point, hqx, priv_pulled]
    have hsame := Poised.congr hqx (priv_pulled loader m d)
    rw [callsUntil, callsUntil, hpoint]
    by_cases hpoised : Poised d
    · rw [if_pos hpoised, if_pos (hsame.mpr hpoised)]
    · rw [if_neg hpoised, if_neg fun h => hpoised (hsame.mp h)]
  logic {d} tick h hgoal := by
    obtain ⟨hwalled, hmode⟩ := h
    have hkept := walled_configRun tick d
    have hpoised := poised_configRun tick hmode
    rw [loads.runLogic]
    refine ⟨hkept, ?_⟩
    rw [callsUntil, if_pos hpoised, callsUntil]
    split
    · next hbefore =>
        rw [(point_configRun tick hmode hbefore hwalled).1]
        exact hnear tick hmode hbefore hwalled hgoal
    · exact Nat.succ_le_succ (hmost hpoised hkept)

theorem callsUntil_le
    (hmost : ∀ {d : Tank ℚ}, Poised d → Walled d → turn (point d) ≤ most) {d : Tank ℚ}
    (h : Walled d) : callsUntil turn most d ≤ most + 1 := by
  rw [callsUntil]
  split
  · next hpoised => exact (hmost hpoised h).trans (Nat.le_succ _)
  · exact le_refl _

end Advances

/-- The level is never more than this far from a turn. -/
theorem until_le {d : Tank ℚ} (h : Poised d) (hwalled : Walled d) :
    tank.untilRise (point d) ≤ 4426 ∧ tank.untilFall (point d) ≤ 4500 := by
  have hinside := h.inside
  obtain ⟨hlo, hhi⟩ := hwalled
  obtain ⟨level, hlevel⟩ : ∃ level, d.priv.levelSim = level := ⟨_, rfl⟩
  rw [hlevel] at hlo hhi
  rw [point, hlevel] at hinside ⊢
  cases decide (d.vars.qx 0 ≠ 0) with
  | true =>
      have hfill : Loop.strides 0.38 (850 - level) ≤ 2237 :=
        Loop.strides_le (by norm_num) (by norm_num; linarith)
      have hdrain : Loop.strides (0.32 : ℚ) (850 + 0.38 - 150) ≤ 2189 :=
        Loop.strides_le (by norm_num) (by norm_num)
      constructor
      · show Loop.strides 0.38 (850 - level) + Loop.strides (0.32 : ℚ) (850 + 0.38 - 150) ≤ 4426
        omega
      · show Loop.strides 0.38 (-level - -850) ≤ 4500
        rw [neg_sub_neg]
        omega
  | false =>
      have hdrain : Loop.strides 0.32 (level - 150) ≤ 2657 :=
        Loop.strides_le (by norm_num) (by norm_num; linarith)
      have hfill : Loop.strides (0.38 : ℚ) (-150 + 0.32 - -850) ≤ 1843 :=
        Loop.strides_le (by norm_num) (by norm_num)
      constructor
      · show Loop.strides 0.32 (level - 150) ≤ 4426
        omega
      · show Loop.strides 0.32 (-150 - -level) + Loop.strides (0.38 : ℚ) (-150 + 0.32 - -850) ≤ 4500
        rw [neg_sub_neg]
        omega

/-- In any 4502 scans in AUTO the inlet opens, and is counted as opened, and it
closes: from every state the plant can be in, for every memory and mapping rules,
and whatever clients write in between. -/
theorem tank_cycles (m : PlcMemory) (d : Tank ℚ) (es es' : List Event)
    (hphase : (plantAfter loader m d es).phase = .inputs)
    (hauto : Loop.Each (exec loader) StaysAuto (plantAfter loader m d es) es')
    (hmany : 3 * 4502 ≤ es'.count .step) :
    (∃ before after, es' = before ++ .step :: after ∧
      Calls Opens (PlcScheduler.run loader (plantAfter loader m d es) before)) ∧
    ∃ before after, es' = before ++ .step :: after ∧
      Calls Closes (PlcScheduler.run loader (plantAfter loader m d es) before) := by
  have hwalled := walled_plantAfter m d es
  constructor
  · have hrises : Advances loader (·.readDiscreteInput 0 = true) Walled
        (fun d => Walled d ∧ d.vars.ix 0 ≠ 0) Opens (callsUntil tank.untilRise 4426) := by
      refine advances ?_ fun hpoised hkept => (until_le hpoised hkept).1
      intro d tick hmode hpoised hkept hgoal
      obtain ⟨hnext, hcount⟩ := point_configRun tick hmode hpoised hkept
      refine TwoPoint.untilRise_next sane_tank hpoised.inside fun hturned => hgoal ?_
      obtain ⟨hbefore, hafter⟩ := hturned
      rw [← hnext] at hafter
      have hclosed : d.vars.qx 0 = 0 := not_not.mp (of_decide_eq_false hbefore)
      have hopened := of_decide_eq_true hafter
      rw [Opens, loads.runLogic]
      exact ⟨hclosed, hopened, hcount hclosed hopened⟩
    have hless := callsUntil_le (fun hpoised hkept => (until_le hpoised hkept).1) hwalled
    exact hrises.exists_goal hwalled hphase hauto (by omega)
  · have hfalls : Advances loader (·.readDiscreteInput 0 = true) Walled
        (fun d => Walled d ∧ d.vars.ix 0 ≠ 0) Closes (callsUntil tank.untilFall 4500) := by
      refine advances ?_ fun hpoised hkept => (until_le hpoised hkept).2
      intro d tick hmode hpoised hkept hgoal
      obtain ⟨hnext, -⟩ := point_configRun tick hmode hpoised hkept
      refine TwoPoint.untilFall_next sane_tank hpoised.inside fun hturned => hgoal ?_
      obtain ⟨hbefore, hafter⟩ := hturned
      rw [← hnext] at hafter
      rw [Closes, loads.runLogic]
      exact ⟨of_decide_eq_true hbefore, not_not.mp (of_decide_eq_false hafter)⟩
    have hless := callsUntil_le (fun hpoised hkept => (until_le hpoised hkept).2) hwalled
    exact hfalls.exists_goal hwalled hphase hauto (by omega)

/-- A client holds the switch, and the scheduler makes a scan. -/
def heldAuto : List Event := heldScan [.discreteInput 0 true]

theorem heldAuto_reads {s : Plant (Private ℚ)} (h : AtScan s ∧ 0 < s.mem.size .di) :
    Loop.Each (exec loader) StaysAuto s heldAuto ∧
      AtScan (heldAuto.foldl (exec loader) s) ∧
        0 < (heldAuto.foldl (exec loader) s).mem.size .di := by
  have hread := PlcMemory.readDiscreteInput_writeDiscreteInput s.mem 0 true h.2 0
  obtain ⟨heach, hscan, hsize⟩ := heldScan_reads loader [.discreteInput 0 true]
    (P := (·.readDiscreteInput 0 = true)) h.1 (hread.trans (if_pos rfl))
  exact ⟨heach, hscan, (hsize .di).symm ▸ h.2⟩

theorem tank_cycles_default :
    (∃ before after, (List.replicate 4502 heldAuto).flatten = before ++ .step :: after ∧
      Calls Opens (PlcScheduler.run loader
        (plantAfter loader PlcMemory.default tankStart.dll []) before)) ∧
    ∃ before after, (List.replicate 4502 heldAuto).flatten = before ++ .step :: after ∧
      Calls Closes (PlcScheduler.run loader
        (plantAfter loader PlcMemory.default tankStart.dll []) before) := by
  obtain ⟨hscan, hsize⟩ := atScan_start (loader (D := ℚ)) (m := PlcMemory.default) rfl
    tankStart.dll
  have hdi : 0 < (start loader PlcMemory.default tankStart.dll).mem.size .di := by
    rw [hsize]
    exact (by decide : 0 < 1024).trans_le (PlcMemory.size_default .di).1
  have hauto := Loop.each_repeat (I := fun s : Plant (Private ℚ) => AtScan s ∧ 0 < s.mem.size .di)
    (fun s h => heldAuto_reads h) 4502 ⟨hscan, hdi⟩
  refine tank_cycles PlcMemory.default tankStart.dll [] (List.replicate 4502 heldAuto).flatten
    hscan.phase hauto ?_
  have hcount : heldAuto.count .step = 3 := by decide
  rw [List.count_flatten, List.map_replicate, List.sum_replicate, hcount]
  decide

end Mock

end VPlc
