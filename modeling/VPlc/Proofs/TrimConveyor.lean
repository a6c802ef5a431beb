import Mathlib.Tactic.Linarith
import Mathlib.Tactic.NormNum
import VPlc.Loop.Each
import VPlc.Proofs.TrimSpec

/-!
# The conveyor at its stations

A station's window is ten millimetres wide and the conveyor takes three at a
time. A hanger that stands at the start of a window and is told to move is still
in the window after one scan, and is put back to its start. So a commanded scan
moves the conveyor exactly if it does not start at a station (`moves_iff`), and
once the sequence has stopped a vehicle at a station it does not get it away
again.

Runs are taken here with whatever may be set from outside before a scan: the mode
switch, the holding registers, and in MANUAL the coils.
-/

namespace VPlc

namespace Trim

/-! ## Runs -/

/-- What a scan finds at its inputs. -/
structure Inputs where
  tick : UInt64
  auto : UInt8
  coils : UInt16 → UInt8
  registers : UInt16 → UInt16

def Inputs.apply {D : Type} (u : Inputs) (d : Line D) : Line D :=
  { d with
    vars := { d.vars with
      ix := Function.update d.vars.ix 0 u.auto
      qx := if u.auto = 0 then u.coils else d.vars.qx
      mw := u.registers } }

section Scan

variable {D : Type}

/-- No emergency stop, and no actuator on that the sequence does not drive. -/
structure Ready (d : Line D) : Prop where
  stop : d.vars.ix 5 = 0
  driven : Driven d

variable {d : Line D} (u : Inputs)

theorem Ready.stop_apply (h : Ready d) : (u.apply d).vars.ix 5 = 0 := by
  show Function.update d.vars.ix 0 u.auto 5 = 0
  rw [Function.update_of_ne (by decide), h.stop]

theorem mode_apply : (u.apply d).vars.ix 0 = u.auto := by
  show Function.update d.vars.ix 0 u.auto 0 = u.auto
  rw [Function.update_self]

theorem qx_apply (hauto : u.auto ≠ 0) : (u.apply d).vars.qx = d.vars.qx := by
  show (if u.auto = 0 then u.coils else d.vars.qx) = d.vars.qx
  rw [if_neg hauto]

theorem Ready.driven_apply (h : Ready d) (hauto : u.auto ≠ 0) : Driven (u.apply d) := by
  intro k hk hdrives
  rw [qx_apply u hauto]
  exact h.driven k hk hdrives

variable [Double D]

def scan (d : Line D) (u : Inputs) : Line D := configRun u.tick (u.apply d)

theorem ready_configInit (d : Line D) : Ready (configInit d) where
  stop := by simp [configInit]
  driven := .of_state_zero (by simp [configInit])

theorem Ready.scan (h : Ready d) : Ready (scan d u) where
  stop := stop_configRun u.tick (h.stop_apply u)
  driven := by
    by_cases hmode : u.auto = 0
    · refine .of_state_zero (configRun_manual u.tick (h.stop_apply u) ?_).1
      rw [mode_apply, hmode]
    · refine (configRun_auto u.tick (h.stop_apply u) ?_ (h.driven_apply u hmode)).1
      rwa [mode_apply]

/-- A scan in AUTO is the machine's layer and then the sequence's. -/
theorem scan_auto (h : Ready d) (hauto : u.auto ≠ 0) :
    scan d u = sequence u.tick (simulate u.tick (lamps u.tick (u.apply d))) := by
  have hmode : (u.apply d).vars.ix 0 ≠ 0 := by rwa [mode_apply]
  rw [Trim.scan, configRun_eq u.tick (h.stop_apply u), if_pos hmode]

theorem scan_manual (h : Ready d) (hmanual : u.auto = 0) :
    scan d u = goto 0 (simulate u.tick (lamps u.tick (u.apply d))) := by
  have hmode : ¬ (u.apply d).vars.ix 0 ≠ 0 := by rwa [mode_apply, not_not]
  rw [Trim.scan, configRun_eq u.tick (h.stop_apply u), if_neg hmode]

end Scan

/-! ## Where the hanger is after a scan -/

theorem priv_lamps {D : Type} (tick : UInt64) (d : Line D) :
    ∃ flash, (lamps tick d).priv = { d.priv with yellowFlash := flash } := by
  simp only [lamps]
  split <;> split <;> exact ⟨_, rfl⟩

section Position

variable {D : Type} [Double D] (tick : UInt64) (d : Line D)

theorem conveyorPos_simulate :
    (simulate tick d).priv.conveyorPos = (conveyor d).priv.conveyorPos := by
  simp only [simulate, lifter, priv_press]
  rfl

theorem conveyorPos_conveyor :
    (conveyor d).priv.conveyorPos =
      if d.vars.qx 0 ≠ 0 then halt 900.0 910.0 (approach4 d)
      else d.priv.conveyorPos := by
  simp only [conveyor]
  split
  · split <;>
      simp_all [priv_station, mw_station, moveTo, approach4, approach3, approach2,
        approach1]
  · rfl

/-- Of the simulated machine the sequence touches the hanger alone, and only in
state 8. -/
theorem priv_sequence : ∃ state pos,
    (sequence tick d).priv =
      { d.priv with conveyorPos := pos, trimSfcState := state } ∧
    (pos = d.priv.conveyorPos ∨ (d.priv.trimSfcState = 8 ∧ pos = 925.0)) := by
  have hgate (e : Line D) : (qualityGate e).priv = e.priv := by
    simp only [qualityGate]
    split <;> rfl
  simp only [sequence]
  split
  · split <;> exact ⟨_, _, rfl, .inl rfl⟩
  · split <;> exact ⟨_, _, rfl, .inl rfl⟩
  · split <;> exact ⟨_, _, rfl, .inl rfl⟩
  · split
    · exact ⟨_, _, rfl, .inl rfl⟩
    · split <;> exact ⟨_, _, rfl, .inl rfl⟩
  · split <;> exact ⟨_, _, rfl, .inl rfl⟩
  · split <;> exact ⟨_, _, rfl, .inl rfl⟩
  · split <;> exact ⟨_, _, rfl, .inl rfl⟩
  · split
    · simp only [goto, hgate]
      exact ⟨_, _, rfl, .inl rfl⟩
    · exact ⟨_, _, rfl, .inl rfl⟩
  · next h8 =>
      split
      · exact ⟨_, _, rfl, .inr ⟨h8, rfl⟩⟩
      · exact ⟨_, _, rfl, .inl rfl⟩
  · exact ⟨_, _, rfl, .inl rfl⟩

theorem conveyorPos_sequence (h : d.priv.trimSfcState ≠ 8) :
    (sequence tick d).priv.conveyorPos = d.priv.conveyorPos := by
  obtain ⟨state, pos, hpriv, hpos⟩ := priv_sequence tick d
  rw [hpriv]
  exact hpos.resolve_right fun h8 => h h8.1

end Position

/-! ## At a station -/

/-- The hanger stands where a window starts. -/
def Parked (bypass : UInt16) (pos : ℚ) : Prop :=
  pos = 200 ∨ (bypass ≠ 1 ∧ pos = 450) ∨ pos = 700 ∨ pos = 900

theorem halt_of_lt {lo hi pos : ℚ} (h : pos < lo) : halt lo hi pos = pos :=
  if_neg fun hw => absurd h (not_lt.mpr hw.1)

/-- Past the four stations. The second does not look while it is bypassed. -/
def pass (bypass : UInt16) (q : ℚ) : ℚ :=
  halt 900 910 (halt 700 710
    (if bypass ≠ 1 then halt 450 460 (halt 200 210 q) else halt 200 210 q))

/-- At most one of them stops the hanger: it is in its window, and is then at
its start; or it is in nobody's, and stays where it is. -/
theorem pass_cases (bypass : UInt16) (q : ℚ) :
    (200 ≤ q ∧ q < 210 ∧ pass bypass q = 200) ∨
    (bypass ≠ 1 ∧ 450 ≤ q ∧ q < 460 ∧ pass bypass q = 450) ∨
    (700 ≤ q ∧ q < 710 ∧ pass bypass q = 700) ∨
    (900 ≤ q ∧ q < 910 ∧ pass bypass q = 900) ∨
    (¬ (200 ≤ q ∧ q < 210) ∧ ¬ (bypass ≠ 1 ∧ 450 ≤ q ∧ q < 460) ∧
      ¬ (700 ≤ q ∧ q < 710) ∧ ¬ (900 ≤ q ∧ q < 910) ∧ pass bypass q = q) := by
  -- what the second station leaves alone, the bypass leaves alone
  have hsecond {x : ℚ} (hx : x < 450) : (if bypass ≠ 1 then halt 450 460 x else x) = x := by
    rw [halt_of_lt hx, ite_self]
  have h200 : halt 700 710 (200 : ℚ) = 200 := halt_of_lt (by norm_num)
  have h200' : halt 900 910 (200 : ℚ) = 200 := halt_of_lt (by norm_num)
  have h450 : halt 700 710 (450 : ℚ) = 450 := halt_of_lt (by norm_num)
  have h450' : halt 900 910 (450 : ℚ) = 450 := halt_of_lt (by norm_num)
  have h700 : halt 900 910 (700 : ℚ) = 700 := halt_of_lt (by norm_num)
  unfold pass
  by_cases w1 : 200 ≤ q ∧ q < 210
  · rw [show halt 200 210 q = 200 from if_pos w1, hsecond (by norm_num), h200, h200']
    exact .inl ⟨w1.1, w1.2, rfl⟩
  rw [show halt 200 210 q = q from if_neg w1]
  right
  by_cases w2 : bypass ≠ 1 ∧ 450 ≤ q ∧ q < 460
  · rw [if_pos w2.1, show halt 450 460 q = 450 from if_pos w2.2, h450, h450']
    exact .inl ⟨w2.1, w2.2.1, w2.2.2, rfl⟩
  have hq : (if bypass ≠ 1 then halt 450 460 q else q) = q := by
    split
    · next hb => exact if_neg fun hw => w2 ⟨hb, hw⟩
    · rfl
  rw [hq]
  right
  by_cases w3 : 700 ≤ q ∧ q < 710
  · rw [show halt 700 710 q = 700 from if_pos w3, h700]
    exact .inl ⟨w3.1, w3.2, rfl⟩
  rw [show halt 700 710 q = q from if_neg w3]
  right
  by_cases w4 : 900 ≤ q ∧ q < 910
  · exact .inl ⟨w4.1, w4.2, if_pos w4⟩
  · exact .inr ⟨w1, w2, w3, w4, if_neg w4⟩

/-- The conveyor takes its three millimetres, or starts over. -/
theorem advance_cases (p : ℚ) :
    (p + 3 < 1000 ∧ advance p = p + 3) ∨ (1000 ≤ p + 3 ∧ advance p = 0) := by
  unfold advance
  norm_num
  rcases lt_or_ge (p + 3) 1000 with h | h
  · exact .inl ⟨h, fun h' => absurd h (not_lt.mpr h')⟩
  · exact .inr ⟨h, fun h' => absurd h' (not_lt.mpr h)⟩

theorem conveyorPos_moved (d : Line ℚ) (h : d.vars.qx 0 ≠ 0) :
    (conveyor d).priv.conveyorPos =
      pass (d.vars.mw 4) (advance d.priv.conveyorPos) := by
  rw [conveyorPos_conveyor, if_pos h]
  simp only [approach4, approach3, approach2, approach1, pass]
  norm_num

/-- A commanded conveyor does not move exactly if it is at a station. -/
theorem conveyorPos_eq_iff (d : Line ℚ) (h : d.vars.qx 0 ≠ 0) :
    (conveyor d).priv.conveyorPos = d.priv.conveyorPos ↔
      Parked (d.vars.mw 4) d.priv.conveyorPos := by
  rw [conveyorPos_moved d h]
  obtain ⟨p, hp⟩ : ∃ p, d.priv.conveyorPos = p := ⟨_, rfl⟩
  rw [hp]
  constructor
  · intro heq
    rcases pass_cases (d.vars.mw 4) (advance p) with ⟨-, -, hpass⟩ | ⟨hb, -, -, hpass⟩ |
      ⟨-, -, hpass⟩ | ⟨-, -, hpass⟩ | ⟨-, -, -, -, hpass⟩ <;> rw [hpass] at heq
    · exact .inl heq.symm
    · exact .inr (.inl ⟨hb, heq.symm⟩)
    · exact .inr (.inr (.inl heq.symm))
    · exact .inr (.inr (.inr heq.symm))
    · rcases advance_cases p with ⟨-, hadv⟩ | ⟨hwrap, hadv⟩ <;> rw [hadv] at heq <;>
        linarith
  · intro hparked
    have hstop : 200 ≤ p ∧ p ≤ 900 := by
      rcases hparked with rfl | ⟨-, rfl⟩ | rfl | rfl <;> norm_num
    obtain ⟨-, hadv⟩ : p + 3 < 1000 ∧ advance p = p + 3 :=
      (advance_cases p).resolve_right fun hwrap => by linarith [hwrap.1]
    rw [hadv]
    rcases pass_cases (d.vars.mw 4) (p + 3) with ⟨hlo, hhi, hpass⟩ | ⟨-, hlo, hhi, hpass⟩ |
      ⟨hlo, hhi, hpass⟩ | ⟨hlo, hhi, hpass⟩ | ⟨h1, h2, h3, h4, -⟩
    · rw [hpass]
      rcases hparked with rfl | ⟨-, rfl⟩ | rfl | rfl <;> linarith
    · rw [hpass]
      rcases hparked with rfl | ⟨-, rfl⟩ | rfl | rfl <;> linarith
    · rw [hpass]
      rcases hparked with rfl | ⟨-, rfl⟩ | rfl | rfl <;> linarith
    · rw [hpass]
      rcases hparked with rfl | ⟨-, rfl⟩ | rfl | rfl <;> linarith
    · rcases hparked with rfl | ⟨hb, rfl⟩ | rfl | rfl
      · exact absurd (by norm_num) h1
      · exact absurd ⟨hb, by norm_num⟩ h2
      · exact absurd (by norm_num) h3
      · exact absurd (by norm_num) h4

/-! ## Runs in which the conveyor moves -/

/-- The scan, if it is one in AUTO that starts with the conveyor on, moves the
hanger. -/
def Moves (d : Line ℚ) (u : Inputs) : Prop :=
  u.auto ≠ 0 → d.vars.qx 0 ≠ 0 → (scan d u).priv.conveyorPos ≠ d.priv.conveyorPos

/-- The scan, if it is one in AUTO that starts with the conveyor on, does not
start at a station. -/
def Clear (d : Line ℚ) (u : Inputs) : Prop :=
  u.auto ≠ 0 → d.vars.qx 0 ≠ 0 → ¬ Parked (u.registers 4) d.priv.conveyorPos

/-- A commanded scan leaves the hanger where it was exactly if that is at a
station. -/
theorem scan_stays_iff {d : Line ℚ} (u : Inputs) (h : Ready d) (hauto : u.auto ≠ 0)
    (hon : d.vars.qx 0 ≠ 0) :
    (scan d u).priv.conveyorPos = d.priv.conveyorPos ↔
      Parked (u.registers 4) d.priv.conveyorPos := by
  obtain ⟨e, he⟩ : ∃ e, lamps u.tick (u.apply d) = e := ⟨_, rfl⟩
  have hlamps : SameCommands (u.apply d) e := by
    rw [← he]
    exact (SameCommands.refl (u.apply d)).lamps u.tick
  have hpos : e.priv.conveyorPos = d.priv.conveyorPos := by
    obtain ⟨flash, hflash⟩ := priv_lamps u.tick (u.apply d)
    rw [← he, hflash]
    rfl
  have hcoil : e.vars.qx 0 ≠ 0 := by
    rwa [hlamps.coils 0 (by decide), qx_apply u hauto]
  have hbypass : e.vars.mw 4 = u.registers 4 := congrFun hlamps.registers 4
  have hstate : (simulate u.tick e).priv.trimSfcState ≠ 8 := by
    rw [(hlamps.simulate u.tick).state]
    intro h8
    refine hon (h.driven 0 (by decide) ?_)
    rw [show d.priv.trimSfcState = 8 from h8]
    exact List.not_mem_nil
  have hmoved := conveyorPos_eq_iff e hcoil
  rw [hpos, hbypass] at hmoved
  rw [scan_auto u h hauto, he, conveyorPos_sequence _ _ hstate, conveyorPos_simulate]
  exact hmoved

theorem moves_iff {d : Line ℚ} (u : Inputs) (h : Ready d) : Moves d u ↔ Clear d u := by
  constructor
  · intro hmoves hauto hon hparked
    exact hmoves hauto hon ((scan_stays_iff u h hauto hon).mpr hparked)
  · intro hclear hauto hon hstays
    exact hclear hauto hon ((scan_stays_iff u h hauto hon).mp hstays)

/-- Every commanded scan of a run moves the conveyor exactly if none starts at a
station. -/
theorem trim_conveyor_moves_iff (d : Line ℚ) (us : List Inputs) :
    Loop.Each scan Moves (configInit d) us ↔ Loop.Each scan Clear (configInit d) us := by
  have hiff (d : Line ℚ) (u : Inputs) (h : Ready d) : Moves d u ↔ Clear d u := moves_iff u h
  have hkeep (d : Line ℚ) (u : Inputs) (h : Ready d) (_ : Moves d u) : Ready (scan d u) :=
    h.scan u
  exact Loop.each_congr hiff hkeep us (ready_configInit d)

/-- A line in AUTO with everything off. -/
def idle : Line ℚ := ⟨⟨fun _ => 0, fun _ => 0, fun _ => 0, fun _ => 0⟩,
  ⟨0, 0, 0, 0, 0, 0, 0, 0, 0, 0⟩⟩

/-- Scans in AUTO from tick zero on, with a torque setpoint and no bypass. -/
def autoScans (setpoint : UInt16) (n : Nat) : List Inputs :=
  (List.range n).map fun t =>
    ⟨UInt64.ofNat t, 1, fun _ => 0, Function.update (fun _ => 0) 3 setpoint⟩

/-- After 91 scans the first vehicle has been tightened, and it does not leave the
station. -/
theorem trim_conveyor_stuck :
    ¬ ∀ (d : Line ℚ) (us : List Inputs), Loop.Each scan Moves (configInit d) us := by
  intro h
  have hsplit : autoScans 1 92 = autoScans 1 91 ++ ⟨91, 1, fun _ => 0,
      Function.update (fun _ => 0) 3 1⟩ :: [] := by
    rw [autoScans, List.range_succ, List.map_append]
    rfl
  have heach := h idle (autoScans 1 92)
  rw [hsplit] at heach
  have hmoves := heach.split
  obtain ⟨e, he⟩ : ∃ e, (autoScans 1 91).foldl scan (configInit idle) = e := ⟨_, rfl⟩
  have hstuck : e.vars.qx 0 ≠ 0 ∧ (scan e ⟨91, 1, fun _ => 0,
      Function.update (fun _ => 0) 3 1⟩).priv.conveyorPos = e.priv.conveyorPos := by
    rw [← he]
    decide +kernel
  rw [he] at hmoves
  exact hmoves (by decide) hstuck.1 hstuck.2

end Trim

end VPlc
