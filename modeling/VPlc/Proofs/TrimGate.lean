import VPlc.Proofs.TrimFeedback

/-!
# What the quality gate judges

The gate reads the torque when the vehicle has come to the last station, five
states after the nutrunner has stopped. The simulated machine does not keep the
reading: without the nutrunner the torque is zero in the next scan. So the gate
finds the reading that ended the tightening only if that was zero already, and it
was zero exactly if the nutrunner had not been on (`kept_iff`).
-/

namespace VPlc

namespace Trim

/-! ## Runs in AUTO -/

/-- What is set from outside before a scan. -/
structure Settings where
  tick : UInt64
  setpoint : UInt16
  bypass : UInt16

/-- The mode, the coils and the counters are as the last scan left them. -/
def Settings.inputs {D : Type} (s : Settings) (d : Line D) : Inputs where
  tick := s.tick
  auto := d.vars.ix 0
  coils := d.vars.qx
  registers := Function.update (Function.update d.vars.mw 3 s.setpoint) 4 s.bypass

def cycle {D : Type} [Double D] (d : Line D) (s : Settings) : Line D :=
  scan d (s.inputs d)

/-- A run, and the last scan that left the tightening, with the state it started
from, until the gate has judged it. -/
def watch (r : Line ℚ × Option (Line ℚ × Settings)) (s : Settings) :
    Line ℚ × Option (Line ℚ × Settings) :=
  let d := cycle r.1 s
  (d,
    if r.1.priv.trimSfcState = 2 ∧ d.priv.trimSfcState ≠ 2 then some (r.1, s)
    else if r.1.priv.trimSfcState = 7 ∧ d.priv.trimSfcState = 8 then none
    else r.2)

/-- The torque register holds what it held when the tightening ended. -/
def Kept (r : Line ℚ × Option (Line ℚ × Settings)) (s : Settings) : Prop :=
  ∀ e ∈ r.2, (cycle r.1 s).vars.iw 1 = (cycle e.1 e.2).vars.iw 1

/-- The tightening ended before the nutrunner was on. -/
def Untightened (r : Line ℚ × Option (Line ℚ × Settings)) (_ : Settings) : Prop :=
  ∀ e ∈ r.2, e.1.vars.qx 2 = 0

/-! ## The reading -/

theorem jitter_reading (tick : UInt64) : (450 + (tick % 5 - 2).toNat) % 65536 ≠ 0 := by
  have hmod : (tick % 5).toNat < 5 := by
    rw [UInt64.toNat_mod]
    exact Nat.mod_lt _ (by decide)
  have h2 : (2 : UInt64).toNat = 2 := rfl
  by_cases h : tick % 5 < 2
  · have hlt := UInt64.lt_iff_toNat_lt.mp h
    rw [toNat_sub_of_lt h, h2]
    omega
  · rw [UInt64.toNat_sub_of_le _ _ (UInt64.not_lt.mp h), h2]
    omega

/-- While the nutrunner tightens the register is not zero. -/
theorem tighten_reading (tick : UInt64) {t : ℚ} (h : 0 ≤ t) :
    Double.toUInt16 (tighten tick t + 0.5) ≠ 0 := by
  have hne {x : ℚ} {n : Nat} (hfloor : ⌊x⌋ = (n : Int)) (hn : n % 65536 ≠ 0) :
      Double.toUInt16 x ≠ 0 := by
    intro h0
    have hof : (UInt16.ofNat ⌊x⌋.toNat).toNat = 0 := congrArg UInt16.toNat h0
    rw [hfloor, Int.toNat_natCast, UInt16.toNat_ofNat'] at hof
    omega
  rw [tighten_eq]
  split
  · refine hne (n := 450 + (tick % 5 - 2).toNat) ?_ (jitter_reading tick)
    rw [Int.floor_eq_iff]
    push_cast
    norm_num
  · next hlow =>
      have hfloor : 23 ≤ ⌊t + 22.5 + 0.5⌋ ∧ ⌊t + 22.5 + 0.5⌋ < 453 := by
        rw [Int.le_floor, Int.floor_lt]
        norm_num at hlow ⊢
        constructor <;> linarith
      obtain ⟨n, hn⟩ := Int.eq_ofNat_of_zero_le (show 0 ≤ ⌊t + 22.5 + 0.5⌋ by omega)
      exact hne hn (by omega)

theorem iw_sequence {D : Type} [Double D] (tick : UInt64) (d : Line D) :
    (sequence tick d).vars.iw = d.vars.iw := by
  have hgate (e : Line D) : (qualityGate e).vars.iw = e.vars.iw := by
    simp only [qualityGate]
    split <;> rfl
  simp only [sequence]
  split <;> repeat' split
  all_goals first | rfl | exact hgate _

/-! ## The sequence in a cycle -/

/-- What tells where a step of the sequence may lead. -/
structure CycleStep {D : Type} [Double D] (d d' : Line D) : Prop where
  tightens : d'.priv.trimSfcState = 2 →
    (d.priv.trimSfcState = 2 ∧ d'.vars.qx 1 = d.vars.qx 1) ∨
      (d.priv.trimSfcState = 1 ∧ d'.vars.qx 1 = 1 ∧ 0.95 ≤ d.priv.cockpitDockPos)
  tightened : d.priv.trimSfcState = 2 →
    d'.priv.trimSfcState = 2 ∨ d'.priv.trimSfcState = 3
  transit : 3 ≤ d.priv.trimSfcState → d.priv.trimSfcState ≤ 7 →
    (3 ≤ d'.priv.trimSfcState ∧ d'.priv.trimSfcState ≤ 7) ∨
      (d.priv.trimSfcState = 7 ∧ d'.priv.trimSfcState = 8)

theorem cycle_step {D : Type} [Double D] (tick : UInt64) (d : Line D) :
    CycleStep d (sequence tick d) := by
  have hgoto {k k' : Nat} (e : Line D) (hk : d.priv.trimSfcState = k) (h2 : k' ≠ 2)
      (htightened : k = 2 → k' = 3)
      (htransit : 3 ≤ k → k ≤ 7 → (3 ≤ k' ∧ k' ≤ 7) ∨ (k = 7 ∧ k' = 8)) :
      CycleStep d (goto k' e) := by
    refine ⟨fun h => absurd h h2, fun h => .inr (htightened (hk.symm.trans h)), ?_⟩
    rw [hk, state_goto]
    exact htransit
  have hstay {d' : Line D} (hsame : d'.priv.trimSfcState = d.priv.trimSfcState)
      (hcoil : d.priv.trimSfcState = 2 → d'.vars.qx 1 = d.vars.qx 1) : CycleStep d d' := by
    refine ⟨fun h => ?_, fun h => .inl (hsame.trans h), fun h h' => ?_⟩
    · have h2 := hsame.symm.trans h
      exact .inl ⟨h2, hcoil h2⟩
    · rw [hsame]
      exact .inl ⟨h, h'⟩
  have hother {k : Nat} {d' : Line D} (hk : d.priv.trimSfcState = k) (h2 : k ≠ 2)
      (hsame : d'.priv.trimSfcState = d.priv.trimSfcState) : CycleStep d d' :=
    hstay hsame fun h => absurd (hk.symm.trans h) h2
  simp only [sequence]
  split
  · next hk =>
      split
      · exact hgoto _ hk (by omega) (by omega) (by omega)
      · exact hother hk (by omega) rfl
  · next hk =>
      split
      · next hdocked =>
          exact ⟨fun _ => .inr ⟨hk, rfl, hdocked⟩, fun h => by omega, fun h => by omega⟩
      · exact hother hk (by omega) rfl
  · next hk =>
      split
      · exact hgoto _ hk (by omega) (by omega) (by omega)
      · exact hstay rfl fun _ => rfl
  · next hk =>
      split
      · exact hgoto _ hk (by omega) (by omega) (by omega)
      · split
        · exact hgoto _ hk (by omega) (by omega) (by omega)
        · exact hother hk (by omega) rfl
  · next hk =>
      split
      · exact hgoto _ hk (by omega) (by omega) (by omega)
      · exact hother hk (by omega) rfl
  · next hk =>
      split
      · exact hgoto _ hk (by omega) (by omega) (by omega)
      · exact hother hk (by omega) rfl
  · next hk =>
      split
      · exact hgoto _ hk (by omega) (by omega) (by omega)
      · exact hother hk (by omega) rfl
  · next hk =>
      split
      · exact hgoto _ hk (by omega) (by omega) (by omega)
      · exact hother hk (by omega) rfl
  · next hk =>
      split
      · exact hgoto _ hk (by omega) (by omega) (by omega)
      · exact hother hk (by omega) rfl
  · exact hstay rfl fun _ => rfl

/-! ## One scan -/

theorem le_travel {coil : UInt8} {pos : ℚ} (hon : coil ≠ 0) (h : 0.95 ≤ pos) :
    0.95 ≤ travel 0.05 coil pos := by
  norm_num at h
  simp only [travel, if_pos hon]
  norm_num
  rw [if_neg (show ¬ pos + 1 / 20 < 0 by linarith)]
  split
  · norm_num
  · linarith

theorem cockpitDockPos_simulate {D : Type} [Double D] (tick : UInt64) (d : Line D) :
    (simulate tick d).priv.cockpitDockPos =
      travel 0.05 (d.vars.qx 1) d.priv.cockpitDockPos := by
  have hcoil := (SameCommands.refl d).conveyor.coils 1 (by decide)
  have hdock : (conveyor d).priv.cockpitDockPos = d.priv.cockpitDockPos := by
    rw [priv_conveyor]
  simp [simulate, lifter, priv_press, heater, nutrunner, dock, hcoil, hdock]

/-- In AUTO, with the cockpit docked while it is tightened. -/
structure Cycling (d : Line ℚ) : Prop where
  ready : Ready d
  mode : d.vars.ix 0 ≠ 0
  nonneg : 0 ≤ d.priv.boltTorque
  docked : d.priv.trimSfcState = 2 → d.vars.qx 1 ≠ 0 ∧ 0.95 ≤ d.priv.cockpitDockPos

theorem torque_nonneg (tick : UInt64) (d : Line ℚ) (h : 0 ≤ d.priv.boltTorque) :
    0 ≤ torque tick d := by
  have hjitter : (0 : ℚ) ≤ (tick % 5 - 2).toNat := Nat.cast_nonneg _
  have htighten : 0 ≤ tighten tick d.priv.boltTorque := by
    rw [tighten_eq]
    split <;> linarith
  rw [torque]
  split
  · exact htighten
  · norm_num

section Cycle

variable {d : Line ℚ} (h : Cycling d) (s : Settings)

include h

/-- A scan runs the machine and then the sequence. The machine goes by the coils
the scan starts with. -/
theorem Cycling.cycle_eq : ∃ m, Trim.cycle d s = sequence s.tick m ∧
    m.priv.trimSfcState = d.priv.trimSfcState ∧ m.vars.ix 0 = d.vars.ix 0 ∧
    (∀ k < 5, m.vars.qx k = d.vars.qx k) ∧
    m.priv.boltTorque = torque s.tick d ∧
    m.vars.iw 1 = Double.toUInt16 (torque s.tick d + 0.5) ∧
    m.priv.cockpitDockPos = travel 0.05 (d.vars.qx 1) d.priv.cockpitDockPos := by
  obtain ⟨e, he⟩ : ∃ e, (s.inputs d).apply d = e := ⟨_, rfl⟩
  have heq : e = ⟨{ d.vars with mw := (s.inputs d).registers }, d.priv⟩ := by
    have hcoils := qx_apply (d := d) (s.inputs d) h.mode
    rw [← he]
    show (⟨⟨Function.update d.vars.ix 0 (d.vars.ix 0), ((s.inputs d).apply d).vars.qx,
      d.vars.iw, (s.inputs d).registers⟩, d.priv⟩ : Line ℚ) = _
    rw [hcoils, Function.update_eq_self]
  have hsame := ((SameCommands.refl e).lamps s.tick).simulate s.tick
  have htorque : torque s.tick e = torque s.tick d := by
    rw [heq]
    rfl
  obtain ⟨flash, hflash⟩ := priv_lamps s.tick e
  have hdock := cockpitDockPos_simulate s.tick (lamps s.tick e)
  rw [((SameCommands.refl e).lamps s.tick).coils 1 (by decide), hflash] at hdock
  refine ⟨simulate s.tick (lamps s.tick e), ?_, ?_, ?_, ?_, ?_, ?_, ?_⟩
  · rw [Trim.cycle, scan_auto _ h.ready h.mode, he]
    rfl
  · rw [hsame.state, heq]
  · rw [hsame.mode, heq]
  · intro k hk
    rw [hsame.coils k hk, heq]
  · rw [boltTorque_simulate, torque_lamps, htorque]
  · rw [iw_one_simulate, torque_lamps, htorque]
  · rw [hdock, heq]

theorem Cycling.cycle : Cycling (cycle d s) where
  ready := h.ready.scan (s.inputs d)
  mode := by
    obtain ⟨m, heq, -, hmode, -⟩ := h.cycle_eq s
    rw [heq, ix_sequence _ _ (by decide), hmode]
    exact h.mode
  nonneg := by
    obtain ⟨m, heq, -, -, -, htorque, -⟩ := h.cycle_eq s
    obtain ⟨state, pos, hpriv, -⟩ := priv_sequence s.tick m
    rw [heq, hpriv]
    show 0 ≤ m.priv.boltTorque
    rw [htorque]
    exact torque_nonneg _ _ h.nonneg
  docked := by
    obtain ⟨m, heq, hstate, -, hcoils, -, -, hdock⟩ := h.cycle_eq s
    obtain ⟨state, pos, hpriv, -⟩ := priv_sequence s.tick m
    have hpos : (sequence s.tick m).priv.cockpitDockPos = m.priv.cockpitDockPos := by
      rw [hpriv]
    rw [heq, hpos]
    intro h2
    rcases (cycle_step s.tick m).tightens h2 with ⟨hbefore, hcoil⟩ | ⟨-, hcoil, hdocked⟩
    · obtain ⟨hon, hdocked⟩ := h.docked (hstate ▸ hbefore)
      rw [hcoil, hcoils 1 (by decide), hdock]
      exact ⟨hon, le_travel hon hdocked⟩
    · rw [hcoil]
      exact ⟨by decide, hdocked⟩

theorem Cycling.iw_cycle :
    (Trim.cycle d s).vars.iw 1 = Double.toUInt16 (torque s.tick d + 0.5) := by
  obtain ⟨m, heq, -, -, -, -, hiw, -⟩ := h.cycle_eq s
  rw [heq, iw_sequence, hiw]

theorem Cycling.iw_off (hoff : d.vars.qx 2 = 0) : (Trim.cycle d s).vars.iw 1 = 0 := by
  rw [h.iw_cycle, torque, if_neg fun hon => hon.1 hoff]
  decide +kernel

/-- In the tightening there is nothing to read exactly while it is off. -/
theorem Cycling.iw_eq_zero_iff (h2 : d.priv.trimSfcState = 2) :
    (Trim.cycle d s).vars.iw 1 = 0 ↔ d.vars.qx 2 = 0 := by
  refine ⟨fun hzero => by_contra fun hon => ?_, h.iw_off s⟩
  obtain ⟨hgantry, hdocked⟩ := h.docked h2
  rw [h.iw_cycle, torque, if_pos ⟨hon, le_travel hgantry hdocked⟩] at hzero
  exact tighten_reading s.tick h.nonneg hzero

end Cycle

/-! ## Runs whose gate judges what was applied -/

/-- The vehicle that left the tightening is on its way to the gate. -/
structure Judging (r : Line ℚ × Option (Line ℚ × Settings)) : Prop where
  now : Cycling r.1
  since : ∀ e ∈ r.2, Cycling e.1 ∧ e.1.priv.trimSfcState = 2 ∧
    3 ≤ r.1.priv.trimSfcState ∧ r.1.priv.trimSfcState ≤ 7

theorem kept_iff {r : Line ℚ × Option (Line ℚ × Settings)} (s : Settings) (h : Judging r) :
    Kept r s ↔ Untightened r s := by
  refine forall₂_congr fun e he => ?_
  obtain ⟨hcycling, h2, hlo, hhi⟩ := h.since e he
  have hoff : r.1.vars.qx 2 = 0 := by
    refine h.now.ready.driven 2 (by decide) ?_
    have hk : r.1.priv.trimSfcState = 3 ∨ r.1.priv.trimSfcState = 4 ∨
        r.1.priv.trimSfcState = 5 ∨ r.1.priv.trimSfcState = 6 ∨
        r.1.priv.trimSfcState = 7 := by omega
    rcases hk with hk | hk | hk | hk | hk <;> rw [hk] <;> decide
  rw [h.now.iw_off s hoff, eq_comm]
  exact hcycling.iw_eq_zero_iff e.2 h2

theorem Judging.watch {r : Line ℚ × Option (Line ℚ × Settings)} (h : Judging r)
    (s : Settings) : Judging (watch r s) := by
  have hnow := h.now.cycle s
  obtain ⟨m, heq, hstate, -⟩ := h.now.cycle_eq s
  have hstep := cycle_step s.tick m
  rw [← heq] at hstep
  refine ⟨hnow, ?_⟩
  simp only [Trim.watch]
  split
  · next hleaves =>
      rintro e ⟨⟩
      rcases hstep.tightened (hstate.trans hleaves.1) with hstays | h3
      · exact absurd hstays hleaves.2
      · exact ⟨h.now, hleaves.1, by omega, by omega⟩
  · split
    · rintro e ⟨⟩
    · next hpending =>
        intro e he
        obtain ⟨hcycling, h2, hlo, hhi⟩ := h.since e he
        rcases hstep.transit (by omega) (by omega) with ⟨hlo', hhi'⟩ | ⟨h7, h8⟩
        · exact ⟨hcycling, h2, hlo', hhi'⟩
        · exact absurd ⟨hstate ▸ h7, h8⟩ hpending

theorem judging_configInit (d : Line ℚ) : Judging (configInit d, none) where
  now :=
    { ready := ready_configInit d
      mode := by simp [configInit]
      nonneg := (inRange_configInit d).torque.1
      docked := fun h => absurd h (by simp [configInit]) }
  since := by
    rintro e ⟨⟩

/-- The gate finds the reading that ended the tightening, and finds it all the way
from there, exactly if no tightening that is followed by a scan ended with the
nutrunner on. -/
theorem trim_gate_iff (d : Line ℚ) (ss : List Settings) :
    Loop.Each watch Kept (configInit d, none) ss ↔
      Loop.Each watch Untightened (configInit d, none) ss := by
  have hiff (r : Line ℚ × Option (Line ℚ × Settings)) (s : Settings) (h : Judging r) :
      Kept r s ↔ Untightened r s := kept_iff s h
  have hkeep (r : Line ℚ × Option (Line ℚ × Settings)) (s : Settings) (h : Judging r)
      (_ : Kept r s) : Judging (watch r s) := h.watch s
  exact Loop.each_congr hiff hkeep ss (judging_configInit d)

/-- Scans from tick zero on with one setpoint and no bypass. -/
def tightening (setpoint : UInt16) (n : Nat) : List Settings :=
  (List.range n).map fun t => ⟨UInt64.ofNat t, setpoint, 0⟩

theorem foldl_watch_fst (r : Line ℚ × Option (Line ℚ × Settings)) (ss : List Settings) :
    (ss.foldl watch r).1 = ss.foldl cycle r.1 := by
  induction ss generalizing r with
  | nil => rfl
  | cons s ss ih => exact ih (watch r s)

/-- At the default setpoint the tightening ends in the scan of tick 108, with a
reading of 450. A scan later there is nothing left of it. -/
theorem trim_gate_loses_reading :
    ¬ ∀ (d : Line ℚ) (ss : List Settings), Loop.Each watch Kept (configInit d, none) ss := by
  intro h
  have hsplit : tightening 450 110 =
      (tightening 450 108 ++ [⟨108, 450, 0⟩]) ++ ⟨109, 450, 0⟩ :: [] := by
    rw [tightening, List.range_succ, List.range_succ, List.map_append, List.map_append]
    rfl
  have heach := h idle (tightening 450 110)
  rw [hsplit] at heach
  have hkept := heach.split
  obtain ⟨r, hr⟩ : ∃ r, (tightening 450 108).foldl watch (configInit idle, none) = r := ⟨_, rfl⟩
  have hfst : r.1 = (tightening 450 108).foldl cycle (configInit idle) := by
    rw [← hr, foldl_watch_fst]
  rw [List.foldl_append, hr] at hkept
  obtain ⟨e, he⟩ : ∃ e, (tightening 450 108).foldl cycle (configInit idle) = e := ⟨_, rfl⟩
  have hleaves : e.priv.trimSfcState = 2 ∧ (cycle e ⟨108, 450, 0⟩).priv.trimSfcState ≠ 2 ∧
      (cycle (cycle e ⟨108, 450, 0⟩) ⟨109, 450, 0⟩).vars.iw 1 ≠
        (cycle e ⟨108, 450, 0⟩).vars.iw 1 := by
    rw [← he]
    decide +kernel
  obtain ⟨h2, hleft, hne⟩ := hleaves
  rw [he] at hfst
  obtain ⟨d, pending⟩ := r
  obtain rfl : d = e := hfst
  refine hne (hkept (d, ⟨108, 450, 0⟩) ?_)
  show _ ∈ if _ then _ else _
  rw [if_pos ⟨h2, hleft⟩]
  rfl

end Trim

end VPlc
