import VPlc.Proofs.ScanProgress
import VPlc.Proofs.TrimStation

/-!
# The trim line comes to a standstill

No vehicle leaves the first station, and here is where that leads. In AUTO, with a
torque set point the nutrunner can reach, each of the states 0, 1 and 2 waits for
something it drives itself: the conveyor, the docking cylinder, the nutrunner. So
the sequence gets through them, and then it waits for a vehicle at the second or at
the third station (`Standing`). It does so from 112 scans on, and for as long as the
mode stays (`trim_standstill`).
-/

namespace VPlc

open PlcScheduler

namespace Trim

/-- Waiting for a vehicle that does not come. -/
def Standing (d : Line ℚ) : Prop := d.priv.trimSfcState = 3 ∨ d.priv.trimSfcState = 5

/-- What holds of the machine in either mode. -/
structure Sound (d : Line ℚ) : Prop where
  first : AtFirst d
  stop : d.vars.ix 5 = 0
  pos : 0 ≤ d.priv.conveyorPos
  dock : 0 ≤ d.priv.cockpitDockPos

/-- What the sequence has made of it. While the nutrunner turns, the torque is a
number of its steps, short of the last. -/
structure Sequenced (d : Line ℚ) : Prop where
  driven : Driven d
  docked : d.priv.trimSfcState = 2 → 0.95 ≤ d.priv.cockpitDockPos ∧ d.vars.qx 1 ≠ 0
  torque : d.priv.trimSfcState = 2 → d.vars.qx 2 ≠ 0 →
    ∃ n : Nat, n < 20 ∧ d.priv.boltTorque = 22.5 * n

/-! ## The machine in a scan -/

/-- `e` is the machine a scan later. -/
structure Turned (tick : UInt64) (d e : Line ℚ) : Prop where
  same : SameCommands d e
  conveyorPos : e.priv.conveyorPos =
    if d.vars.qx 0 ≠ 0 then min 200 (d.priv.conveyorPos + 3) else d.priv.conveyorPos
  arrived : e.vars.ix 1 ≠ 0 ↔
    if d.vars.qx 0 ≠ 0 then 200 ≤ d.priv.conveyorPos + 3 else d.vars.ix 1 ≠ 0
  dock : e.priv.cockpitDockPos = travel 0.05 (d.vars.qx 1) d.priv.cockpitDockPos
  bolt : e.priv.boltTorque = torque tick d
  reading : e.vars.iw 1 = Double.toUInt16 (torque tick d + 0.5)

section Turned

variable {d : Line ℚ}

theorem approach2_eq (h : AtFirst d) : approach2 d = min 200 (d.priv.conveyorPos + 3) := by
  have hpos := h.pos
  have hadv : approach1 d = d.priv.conveyorPos + 3 := by
    rcases advance_cases d.priv.conveyorPos with ⟨-, hadv⟩ | ⟨hwrap, -⟩
    · exact hadv
    · linarith
  rw [approach2, halt, hadv]
  norm_num
  by_cases hfar : 200 ≤ d.priv.conveyorPos + 3
  · rw [if_pos ⟨hfar, by linarith⟩, min_eq_left hfar]
  · rw [if_neg fun hin => hfar hin.1, min_eq_right (by linarith)]

theorem arrives_one (h : AtFirst d) :
    Arrives d 1 ↔ if d.vars.qx 0 ≠ 0 then 200 ≤ d.priv.conveyorPos + 3 else d.vars.ix 1 ≠ 0 := by
  have hpos := h.pos
  have hadv : approach1 d = d.priv.conveyorPos + 3 := by
    rcases advance_cases d.priv.conveyorPos with ⟨-, hadv⟩ | ⟨hwrap, -⟩
    · exact hadv
    · linarith
  rw [Arrives]
  split
  · constructor
    · rintro (⟨-, hin⟩ | ⟨hk, -⟩ | ⟨hk, -⟩ | ⟨hk, -⟩)
      · rw [hadv] at hin
        norm_num at hin
        exact hin.1
      · cases hk
      · cases hk
      · cases hk
    · intro hin
      refine .inl ⟨rfl, ?_⟩
      rw [hadv]
      norm_num
      exact ⟨hin, by linarith⟩
  · exact Iff.rfl

theorem cylinder_simulate (tick : UInt64) (d : Line ℚ) :
    (simulate tick d).priv.cockpitDockPos =
        travel 0.05 (d.vars.qx 1) d.priv.cockpitDockPos ∧
      (simulate tick d).priv.boltTorque = torque tick d := by
  have hcoils := (SameCommands.refl d).conveyor.coils
  have hdock : (conveyor d).priv.cockpitDockPos = d.priv.cockpitDockPos := by
    rw [priv_conveyor]
  have hbolt : (conveyor d).priv.boltTorque = d.priv.boltTorque := by
    rw [priv_conveyor]
  constructor
  · simp [simulate, lifter, priv_press, heater, nutrunner, dock, hdock, hcoils 1]
  · simp [simulate, lifter, priv_press, heater, nutrunner, dock, torque, hdock, hbolt,
      hcoils 1, hcoils 2]

theorem turned_simulate (h : AtFirst d) (tick : UInt64) : Turned tick d (simulate tick d) := by
  obtain ⟨hdock, hbolt⟩ := cylinder_simulate tick d
  have hpos := (conveyorPos_simulate tick d).trans (conveyorPos_conveyor d)
  have hle : min 200 (d.priv.conveyorPos + 3) < 900.0 :=
    (min_le_left _ _).trans_lt (by norm_num)
  rw [h.approach4_eq, approach2_eq h, halt_of_lt hle] at hpos
  have harrived := (ix_conveyor d (.inl rfl)).trans (arrives_one h)
  rw [← ix_simulate tick d (by decide) (by decide)] at harrived
  exact ⟨(SameCommands.refl d).simulate tick, hpos, harrived, hdock, hbolt,
    iw_one_simulate tick d⟩

theorem turned_lamps (h : AtFirst d) (tick : UInt64) :
    Turned tick d (simulate tick (lamps tick d)) := by
  have hlamps := (SameCommands.refl d).lamps tick
  have hsame := hlamps.simulate tick
  obtain ⟨flash, hpriv⟩ := priv_lamps tick d
  have hix : (lamps tick d).vars.ix = d.vars.ix := by
    simp only [lamps]
    split <;> split <;> rfl
  obtain ⟨-, hpos, harrived, hdock, hbolt, hreading⟩ := turned_simulate (h.lamps tick) tick
  obtain ⟨l, hl⟩ : ∃ l, lamps tick d = l := ⟨_, rfl⟩
  rw [hl] at hlamps hsame hpriv hix hpos harrived hdock hbolt hreading ⊢
  have hcoil (k : UInt16) (hk : k < 5) : l.vars.qx k = d.vars.qx k := hlamps.coils k hk
  have htorque : torque tick l = torque tick d := by
    simp only [torque, hpriv, hcoil 1 (by decide), hcoil 2 (by decide)]
  rw [htorque] at hbolt hreading
  simp only [hpriv, hix, hcoil 0 (by decide)] at hpos harrived
  simp only [hpriv, hcoil 1 (by decide)] at hdock
  exact ⟨hsame, hpos, harrived, hdock, hbolt, hreading⟩

end Turned

/-! ## What is left to do -/

/-- The calls until it stands, at most. A state that has not yet switched on what it
drives has one more. -/
def left (d : Line ℚ) : Nat :=
  match d.priv.trimSfcState with
  | 0 => 43 + if d.vars.qx 0 = 0 then 68 else Loop.strides 3 (200 - d.priv.conveyorPos)
  | 1 => 22 + if d.vars.qx 1 = 0 then 20 else Loop.strides 0.05 (0.95 - d.priv.cockpitDockPos)
  | 2 => if d.vars.qx 2 = 0 then 21 else Loop.strides 22.5 (450 - d.priv.boltTorque)
  | _ => 0

section Left

variable {d : Line ℚ}

theorem left_docking (h : Sound d) (hstate : d.priv.trimSfcState = 1) : left d ≤ 42 := by
  have hdock := h.dock
  have hfar : Loop.strides 0.05 (0.95 - d.priv.cockpitDockPos) ≤ 19 :=
    Loop.strides_le (by norm_num) (by norm_num; linarith)
  simp only [left, hstate]
  split <;> omega

theorem left_tightening (h : Sequenced d) (hstate : d.priv.trimSfcState = 2) : left d ≤ 21 := by
  simp only [left, hstate]
  split
  · exact le_rfl
  · next hon =>
      obtain ⟨n, -, hbolt⟩ := h.torque hstate hon
      have hfar : Loop.strides 22.5 (450 - d.priv.boltTorque) ≤ 20 :=
        Loop.strides_le (by norm_num) (by rw [hbolt]; norm_num)
      omega

theorem left_le (h : Sound d) (hq : Sequenced d) : left d ≤ 111 := by
  have hpos := h.pos
  have hfar : Loop.strides 3 (200 - d.priv.conveyorPos) ≤ 67 :=
    Loop.strides_le (by norm_num) (by norm_num; linarith)
  have hstate := h.first.state
  simp only [List.mem_cons, List.not_mem_nil, or_false] at hstate
  rcases hstate with h0 | h1 | h2 | h3 | h5
  · simp only [left, h0]
    split <;> omega
  · exact (left_docking h h1).trans (by decide)
  · exact (left_tightening hq h2).trans (by decide)
  · simp only [left, h3]
    omega
  · simp only [left, h5]
    omega

end Left

/-! ## One call -/

theorem travel_nonneg (k : ℚ) (coil : UInt8) (pos : ℚ) : 0 ≤ travel k coil pos := by
  have hends (x : ℚ) : 0 ≤ if 1.0 < (if x < 0.0 then 0.0 else x) then 1.0
      else if x < 0.0 then 0.0 else x := by
    have hfloor : 0 ≤ if x < 0.0 then 0.0 else x := by
      norm_num
      split
      · exact le_refl (0 : ℚ)
      · next hx => exact not_lt.mp hx
    obtain ⟨y, hy⟩ : ∃ y : ℚ, (if x < 0.0 then 0.0 else x) = y := ⟨_, rfl⟩
    rw [hy] at hfloor ⊢
    split
    · norm_num
    · exact hfloor
  exact hends _

theorem travel_out {coil : UInt8} (hcoil : coil ≠ 0) {pos : ℚ} (hpos : 0 ≤ pos) :
    travel 0.05 coil pos = min 1 (pos + 0.05) := by
  have hfloor : ¬ pos + 0.05 < 0.0 := by
    norm_num
    linarith
  simp only [travel, if_pos hcoil, if_neg hfloor]
  norm_num
  split
  · next hend => exact (min_eq_left hend.le).symm
  · next hfar => exact (min_eq_right (not_lt.mp hfar)).symm

section OneCall

variable {d : Line ℚ}

/-- Of the simulated machine the sequence touches nothing here. -/
theorem machine_sequence (tick : UInt64) {e : Line ℚ} (h : e.priv.trimSfcState ≠ 8) :
    (sequence tick e).priv.conveyorPos = e.priv.conveyorPos ∧
      (sequence tick e).priv.cockpitDockPos = e.priv.cockpitDockPos ∧
      (sequence tick e).priv.boltTorque = e.priv.boltTorque := by
  obtain ⟨state, pos, hpriv, hpos⟩ := priv_sequence tick e
  rw [hpriv]
  exact ⟨hpos.resolve_right fun h8 => h h8.1, rfl, rfl⟩

theorem AtFirst.ne_eight (h : AtFirst d) : d.priv.trimSfcState ≠ 8 := by
  intro h8
  have hstate := h.state
  rw [h8] at hstate
  simp at hstate

theorem sound_configRun (h : Sound d) (tick : UInt64) : Sound (configRun tick d) := by
  have hfirst := (h.first.configRun tick).1
  have hstop := stop_configRun tick h.stop
  have hturned := turned_lamps h.first tick
  have hrun := configRun_eq tick h.stop
  obtain ⟨e, he⟩ : ∃ e, simulate tick (lamps tick d) = e := ⟨_, rfl⟩
  obtain ⟨r, hr⟩ : ∃ r, configRun tick d = r := ⟨_, rfl⟩
  rw [he] at hturned hrun
  rw [hr] at hfirst hstop hrun ⊢
  have hpos : 0 ≤ e.priv.conveyorPos := by
    have hpos := h.pos
    rw [hturned.conveyorPos]
    split
    · exact le_min (by norm_num) (by linarith)
    · exact hpos
  have hdock : 0 ≤ e.priv.cockpitDockPos := by
    rw [hturned.dock]
    exact travel_nonneg _ _ _
  have hne : e.priv.trimSfcState ≠ 8 := by
    rw [hturned.same.state]
    exact h.first.ne_eight
  have hsame : r.priv.conveyorPos = e.priv.conveyorPos ∧
      r.priv.cockpitDockPos = e.priv.cockpitDockPos := by
    rw [hrun]
    split
    · exact ⟨(machine_sequence tick hne).1, (machine_sequence tick hne).2.1⟩
    · exact ⟨rfl, rfl⟩
  refine ⟨hfirst, hstop, ?_, ?_⟩
  · rw [hsame.1]
    exact hpos
  · rw [hsame.2]
    exact hdock

/-! In AUTO, state by state. `e` is the machine after its part of the scan. -/

section States

variable (tick : UInt64) {e : Line ℚ}

theorem sequence_zero (hstate : e.priv.trimSfcState = 0) :
    (sequence tick e).vars.qx 1 = 0 ∧ (sequence tick e).vars.qx 2 = 0 ∧
      ((e.vars.ix 1 ≠ 0 ∧ (sequence tick e).priv.trimSfcState = 1) ∨
        (¬ e.vars.ix 1 ≠ 0 ∧ (sequence tick e).priv.trimSfcState = 0 ∧
          (sequence tick e).vars.qx 0 ≠ 0)) := by
  simp only [sequence, hstate]
  split
  · next harrived => exact ⟨rfl, rfl, .inl ⟨harrived, rfl⟩⟩
  · next hwaits => exact ⟨rfl, rfl, .inr ⟨hwaits, hstate, by simp⟩⟩

theorem sequence_one (hstate : e.priv.trimSfcState = 1) :
    (sequence tick e).vars.qx 1 ≠ 0 ∧ (sequence tick e).vars.qx 2 = e.vars.qx 2 ∧
      ((0.95 ≤ e.priv.cockpitDockPos ∧ (sequence tick e).priv.trimSfcState = 2) ∨
        (¬ 0.95 ≤ e.priv.cockpitDockPos ∧ (sequence tick e).priv.trimSfcState = 1)) := by
  simp only [sequence, hstate]
  split
  · next hdocked => exact ⟨by simp, by simp, .inl ⟨hdocked, rfl⟩⟩
  · next hwaits => exact ⟨by simp, by simp, .inr ⟨hwaits, hstate⟩⟩

theorem sequence_two (hstate : e.priv.trimSfcState = 2) :
    (e.vars.mw 3 ≤ e.vars.iw 1 ∧ (sequence tick e).priv.trimSfcState = 3) ∨
      (¬ e.vars.mw 3 ≤ e.vars.iw 1 ∧ (sequence tick e).priv.trimSfcState = 2 ∧
        (sequence tick e).vars.qx 1 = e.vars.qx 1 ∧ (sequence tick e).vars.qx 2 ≠ 0) := by
  simp only [sequence, hstate]
  split
  · next htight => exact .inl ⟨htight, rfl⟩
  · next hwaits => exact .inr ⟨hwaits, hstate, by simp, by simp⟩

theorem standing_sequence (h : AtFirst e) (hstands : Standing e) :
    Standing (sequence tick e) := by
  have hsecond : ¬ (e.setQx 0 1).vars.ix 2 ≠ 0 := not_not.mpr h.second
  have hthird : ¬ (e.setQx 0 1).vars.ix 3 ≠ 0 := not_not.mpr h.third
  rw [Standing]
  rcases hstands with h3 | h5
  · simp only [sequence, h3, if_neg hsecond]
    split
    · exact .inr rfl
    · exact .inl h3
  · simp only [sequence, h5, if_neg hthird]
    exact .inr h5

end States

theorem Sequenced.of_ne (h : Driven d) (hne : d.priv.trimSfcState ≠ 2) : Sequenced d :=
  ⟨h, fun h2 => absurd h2 hne, fun h2 => absurd h2 hne⟩

theorem not_standing (h : d.priv.trimSfcState < 3) : ¬ Standing d := by
  rw [Standing]
  omega

/-- What a call in AUTO comes to: the sequence keeps what it has made, it stands if
it stood, and otherwise it stands now or has less left to do. -/
structure Proceeds (d r : Line ℚ) : Prop where
  sequenced : Sequenced r
  stands : Standing d → Standing r
  nearer : ¬ Standing r → left r + 1 ≤ left d

/-- A call in AUTO: the machine has its turn, and the sequence goes by it. -/
structure Scanned (tick : UInt64) (d e r : Line ℚ) : Prop where
  before : Sound d
  turned : Turned tick d e
  first : AtFirst e
  run : r = sequence tick e
  driven : Driven r
  sound : Sound r

theorem scanned_configRun (h : Sound d) (hdriven : Driven d) (hauto : d.vars.ix 0 ≠ 0)
    (tick : UInt64) : Scanned tick d (simulate tick (lamps tick d)) (configRun tick d) where
  before := h
  turned := turned_lamps h.first tick
  first := (h.first.lamps tick).simulate tick
  run := by rw [configRun_eq tick h.stop, if_pos hauto]
  driven := (configRun_auto tick h.stop hauto hdriven).1
  sound := sound_configRun h tick

section Scanned

variable {tick : UInt64} {e r : Line ℚ} (h : Scanned tick d e r)

include h

theorem Scanned.machine :
    r.priv.conveyorPos = e.priv.conveyorPos ∧
      r.priv.cockpitDockPos = e.priv.cockpitDockPos ∧
      r.priv.boltTorque = torque tick d := by
  obtain ⟨hpos, hdock, hbolt⟩ := machine_sequence tick h.first.ne_eight
  rw [h.run]
  exact ⟨hpos, hdock, hbolt.trans h.turned.bolt⟩

theorem proceeds_transport (h0 : d.priv.trimSfcState = 0) : Proceeds d r := by
  have hidle : ¬ Standing d := not_standing (by omega)
  have hpos := h.turned.conveyorPos
  obtain ⟨-, -, hnext⟩ := sequence_zero tick (h.turned.same.state.trans h0)
  rw [← h.run] at hnext
  rcases hnext with ⟨-, h1⟩ | ⟨hwaits, h0', hon⟩
  · refine ⟨.of_ne h.driven (by omega), fun h => absurd h hidle, fun _ => ?_⟩
    have hhere : 43 ≤ left d := by
      simp only [left, h0]
      exact Nat.le_add_right _ _
    exact (Nat.succ_le_succ (left_docking h.sound h1)).trans hhere
  · refine ⟨.of_ne h.driven (by omega), fun h => absurd h hidle, fun _ => ?_⟩
    simp only [left, h0, h0', if_neg hon, h.machine.1]
    rw [h.turned.arrived] at hwaits
    by_cases hoff : d.vars.qx 0 = 0
    · rw [if_neg (not_not.mpr hoff)] at hpos
      have hzero := h.before.pos
      have hfar : Loop.strides 3 (200 - e.priv.conveyorPos) ≤ 67 :=
        Loop.strides_le (by norm_num) (by rw [hpos]; norm_num; linarith)
      rw [if_pos hoff]
      omega
    · rw [if_pos hoff] at hpos hwaits
      rw [hpos, min_eq_right (by linarith), if_neg hoff]
      have hone : 1 ≤ Loop.strides 3 (200 - d.priv.conveyorPos) :=
        Loop.one_le_strides (by norm_num) (by linarith)
      have hless : Loop.strides 3 (200 - (d.priv.conveyorPos + 3)) ≤
          Loop.strides 3 (200 - d.priv.conveyorPos) - 1 :=
        Loop.strides_le_sub_one (by norm_num) (by linarith)
      omega

theorem proceeds_dock (hdriven : Driven d) (h1 : d.priv.trimSfcState = 1) : Proceeds d r := by
  have hidle : ¬ Standing d := not_standing (by omega)
  have hdock' := h.machine.2.1
  obtain ⟨hout, hkeeps, hnext⟩ := sequence_one tick (h.turned.same.state.trans h1)
  rw [← h.run] at hout hkeeps hnext
  -- the nutrunner is not driven yet
  have hstill : r.vars.qx 2 = 0 := by
    rw [hkeeps, h.turned.same.coils 2 (by decide)]
    exact hdriven 2 (by decide) (by rw [h1]; decide)
  rcases hnext with ⟨hdocked, h2⟩ | ⟨hwaits, h1'⟩
  · have hsequenced : Sequenced r :=
      ⟨h.driven, fun _ => ⟨hdock' ▸ hdocked, hout⟩, fun _ hon => absurd hstill hon⟩
    refine ⟨hsequenced, fun h => absurd h hidle, fun _ => ?_⟩
    have hhere : 22 ≤ left d := by
      simp only [left, h1]
      exact Nat.le_add_right _ _
    exact (Nat.succ_le_succ (left_tightening hsequenced h2)).trans hhere
  · refine ⟨.of_ne h.driven (by omega), fun h => absurd h hidle, fun _ => ?_⟩
    have hzero := h.sound.dock
    rw [hdock'] at hzero
    simp only [left, h1, h1', if_neg hout, hdock']
    by_cases hoff : d.vars.qx 1 = 0
    · have hfar : Loop.strides 0.05 (0.95 - e.priv.cockpitDockPos) ≤ 19 :=
        Loop.strides_le (by norm_num) (by norm_num; linarith)
      rw [if_pos hoff]
      omega
    · rw [if_neg hoff]
      rw [h.turned.dock, travel_out hoff h.before.dock] at hwaits ⊢
      have hshort : d.priv.cockpitDockPos + 0.05 < 0.95 := by
        by_contra hend
        exact hwaits (le_min (by norm_num) (not_lt.mp hend))
      rw [min_eq_right (by linarith)]
      have hone : 1 ≤ Loop.strides 0.05 (0.95 - d.priv.cockpitDockPos) :=
        Loop.one_le_strides (by norm_num) (by linarith)
      have hless : Loop.strides 0.05 (0.95 - (d.priv.cockpitDockPos + 0.05)) ≤
          Loop.strides 0.05 (0.95 - d.priv.cockpitDockPos) - 1 :=
        Loop.strides_le_sub_one (by norm_num) (by linarith)
      omega

omit h in
theorem torque_next (tick : UInt64) {n : Nat} (hn : n < 20) (hon : d.vars.qx 2 ≠ 0)
    (hdocked : 0.95 ≤ travel 0.05 (d.vars.qx 1) d.priv.cockpitDockPos)
    (hsteps : d.priv.boltTorque = 22.5 * n) : torque tick d = 22.5 * (n + 1 : Nat) := by
  have hmany : (n : ℚ) ≤ 19 := by exact_mod_cast Nat.le_of_lt_succ hn
  have hbelow : ¬ (452.0 : ℚ) < 22.5 * n + 22.5 := by
    norm_num
    linarith
  rw [torque, if_pos ⟨hon, hdocked⟩, tighten, hsteps, if_neg hbelow, Nat.cast_succ]
  ring

omit h in
theorem reading_full : Double.toUInt16 (22.5 * (19 + 1 : Nat) + 0.5 : ℚ) = 450 := by
  have hsum : (22.5 * (19 + 1 : Nat) + 0.5 : ℚ) = 450.5 := by norm_num
  have hfloor : ⌊(450.5 : ℚ)⌋ = 450 := by norm_num
  show UInt16.ofNat ⌊(22.5 * (19 + 1 : Nat) + 0.5 : ℚ)⌋.toNat = 450
  rw [hsum, hfloor]
  rfl

theorem proceeds_tighten (hq : Sequenced d) (hset : d.vars.mw 3 ≤ 450)
    (h2 : d.priv.trimSfcState = 2) : Proceeds d r := by
  have hidle : ¬ Standing d := not_standing (by omega)
  have hbolt := h.machine.2.2
  obtain ⟨hdocked, hout⟩ := hq.docked h2
  have hdocked' : (0.95 : ℚ) ≤ travel 0.05 (d.vars.qx 1) d.priv.cockpitDockPos := by
    have hzero := h.before.dock
    rw [travel_out hout hzero]
    exact le_min (by norm_num) (by linarith)
  have hnext := sequence_two tick (h.turned.same.state.trans h2)
  rw [← h.run] at hnext
  rcases hnext with ⟨-, h3⟩ | ⟨hwaits, h2', hq1, hon⟩
  · exact ⟨.of_ne h.driven (by omega), fun h => absurd h hidle, fun h => absurd (.inl h3) h⟩
  have hstays : r.priv.trimSfcState = 2 → 0.95 ≤ r.priv.cockpitDockPos ∧ r.vars.qx 1 ≠ 0 := by
    intro _
    rw [h.machine.2.1, h.turned.dock, hq1, h.turned.same.coils 1 (by decide)]
    exact ⟨hdocked', hout⟩
  by_cases hoff : d.vars.qx 2 = 0
  · have hzero : r.priv.boltTorque = 0 := by
      rw [hbolt, torque, if_neg fun hboth => hboth.1 hoff]
      norm_num
    refine ⟨⟨h.driven, hstays, fun _ _ => ⟨0, by decide, by rw [hzero]; norm_num⟩⟩,
      fun h => absurd h hidle, fun _ => ?_⟩
    have hfar : Loop.strides 22.5 (450 - r.priv.boltTorque) ≤ 20 :=
      Loop.strides_le (by norm_num) (by rw [hzero]; norm_num)
    simp only [left, h2, h2', if_neg hon, if_pos hoff]
    omega
  · obtain ⟨n, hn, hsteps⟩ := hq.torque h2 hoff
    have htorque := torque_next tick hn hoff hdocked' hsteps
    -- the last step would have been enough
    have hfew : n + 1 < 20 := by
      by_contra hlast
      obtain rfl : n = 19 := by omega
      refine hwaits ?_
      rw [h.turned.same.registers, h.turned.reading, htorque, reading_full]
      exact hset
    have hreached : r.priv.boltTorque = 22.5 * (n + 1 : Nat) := hbolt.trans htorque
    refine ⟨⟨h.driven, hstays, fun _ _ => ⟨n + 1, hfew, hreached⟩⟩,
      fun h => absurd h hidle, fun _ => ?_⟩
    have hmany : (n : ℚ) ≤ 19 := by exact_mod_cast Nat.le_of_lt_succ hn
    have hone : 1 ≤ Loop.strides 22.5 (450 - d.priv.boltTorque) :=
      Loop.one_le_strides (by norm_num) (by rw [hsteps]; norm_num; linarith)
    have hless : Loop.strides 22.5 (450 - r.priv.boltTorque) ≤
        Loop.strides 22.5 (450 - d.priv.boltTorque) - 1 := by
      refine Loop.strides_le_sub_one (by norm_num) (le_of_eq ?_)
      rw [hreached, hsteps, Nat.cast_succ]
      ring
    simp only [left, h2, h2', if_neg hon, if_neg hoff]
    omega

theorem proceeds_standing (hstands : Standing d) : Proceeds d r := by
  have hafter : Standing r := by
    rw [h.run]
    refine standing_sequence tick h.first ?_
    rw [Standing, h.turned.same.state]
    exact hstands
  have hne : r.priv.trimSfcState ≠ 2 := by
    rcases hafter with h3 | h5 <;> omega
  exact ⟨.of_ne h.driven hne, fun _ => hafter, fun h => absurd hafter h⟩

end Scanned

theorem proceeds_configRun (h : Sound d) (hq : Sequenced d) (hauto : d.vars.ix 0 ≠ 0)
    (hset : d.vars.mw 3 ≤ 450) (tick : UInt64) : Proceeds d (configRun tick d) := by
  have hscanned := scanned_configRun h hq.driven hauto tick
  have hstate := h.first.state
  simp only [List.mem_cons, List.not_mem_nil, or_false] at hstate
  rcases hstate with h0 | h1 | h2 | hstands
  · exact proceeds_transport hscanned h0
  · exact proceeds_dock hscanned hq.driven h1
  · exact proceeds_tighten hscanned hq hset h2
  · exact proceeds_standing hscanned hstands

end OneCall

/-! ## The plant -/

/-- Around the scans. -/
structure Orderly (d : Line ℚ) : Prop where
  sound : Sound d
  sequenced : Sequenced d

/-- Before the call, if the set point can be reached. What clients have set in MANUAL
is in the library by then, and the call puts the sequence back to its beginning. -/
structure Called (d : Line ℚ) : Prop where
  sound : Sound d
  sequenced : d.vars.ix 0 ≠ 0 → Sequenced d
  reached : d.vars.mw 3 ≤ 450

/-- If this is an input sync, it finds a set point the nutrunner can reach. -/
def InReach : Plant (Private ℚ) → Event → Prop := Reads (·.readHoldingRegister 3 ≤ 450)

/-- After the call it stands. -/
def Stops (tick : UInt64) (d : Line ℚ) : Prop := Standing (loader.runLogic tick d)

section Plant

variable {d : Line ℚ}

theorem Sound.pulled (h : Sound d) (m : PlcMemory) : Sound (pulled loader m d) where
  first := h.first.congr (priv_pulled loader m d) fun _ h0 h7 => pulled_sensor loader m d h0 h7
  stop := (pulled_sensor loader m d (by decide) (by decide)).trans h.stop
  pos := by
    rw [priv_pulled]
    exact h.pos
  dock := by
    rw [priv_pulled]
    exact h.dock

theorem Sequenced.pulled (h : Sequenced d) {m : PlcMemory}
    (hauto : m.readDiscreteInput 0 = true) : Sequenced (pulled loader m d) := by
  have hqx := pulled_qx loader d hauto
  refine ⟨fun k hk hdrives => ?_, fun h2 => ?_, fun h2 hon => ?_⟩
  · rw [priv_pulled] at hdrives
    exact (congrFun hqx k).trans (h.driven k hk hdrives)
  · rw [priv_pulled] at h2 ⊢
    rw [hqx]
    exact h.docked h2
  · rw [priv_pulled] at h2 ⊢
    rw [hqx] at hon
    exact h.torque h2 hon

theorem standing_pulled (m : PlcMemory) : Standing (PlcScheduler.pulled loader m d) ↔
    Standing d := by
  rw [Standing, Standing, priv_pulled]

theorem left_pulled {m : PlcMemory} (hauto : m.readDiscreteInput 0 = true) :
    left (PlcScheduler.pulled loader m d) = left d := by
  simp only [left, pulled_qx loader d hauto, priv_pulled]

theorem sequenced_manual (h : Sound d) (hmanual : d.vars.ix 0 = 0) (tick : UInt64) :
    Sequenced (configRun tick d) := by
  have hstate := (configRun_manual tick h.stop hmanual).1
  exact .of_ne (.of_state_zero hstate) (by rw [hstate]; decide)

theorem orderly_configInit (d : Line ℚ) : Orderly (configInit d) := by
  have hzero : (0 : ℚ) ≤ 0.0 := by norm_num
  have hstate : (configInit d).priv.trimSfcState = 0 := rfl
  exact ⟨⟨.configInit d, (ready_configInit d).stop, hzero, hzero⟩,
    .of_ne (.of_state_zero hstate) (by rw [hstate]; decide)⟩

theorem Orderly.called (h : Orderly d) {m : PlcMemory} (hset : m.readHoldingRegister 3 ≤ 450) :
    Called (pulled loader m d) := by
  have hmode := pulled_ix loader m d (loads.bound (k := 0) (by decide)) (.inl rfl)
  refine ⟨h.sound.pulled m, fun hauto => h.sequenced.pulled (hmode.mp hauto), ?_⟩
  rw [pulled_mw loader m d (loads.bound (by decide))]
  exact hset

theorem Called.orderly (h : Called d) (tick : UInt64) : Orderly (configRun tick d) := by
  refine ⟨sound_configRun h.sound tick, ?_⟩
  by_cases hmode : d.vars.ix 0 = 0
  · exact sequenced_manual h.sound hmode tick
  · exact (proceeds_configRun h.sound (h.sequenced hmode) hmode h.reached tick).sequenced

theorem scans_orderly : Scans loader (·.readHoldingRegister 3 ≤ 450) Orderly Called where
  inputs h hset := h.called hset
  logic tick h := by
    rw [runLogic_loader]
    exact h.orderly tick

theorem advances :
    Advances loader (fun m => m.readHoldingRegister 3 ≤ 450 ∧ m.readDiscreteInput 0 = true)
      Orderly (fun d => Called d ∧ d.vars.ix 0 ≠ 0) Stops left where
  inputs {d m} h hreads := by
    have hmode := pulled_ix loader m d (loads.bound (k := 0) (by decide)) (.inl rfl)
    exact ⟨⟨h.called hreads.1, hmode.mpr hreads.2⟩, (left_pulled hreads.2).le⟩
  logic {d} tick h hgoal := by
    obtain ⟨hcalled, hmode⟩ := h
    rw [Stops, runLogic_loader] at hgoal
    rw [runLogic_loader]
    have hproceeds :=
      proceeds_configRun hcalled.sound (hcalled.sequenced hmode) hmode hcalled.reached tick
    exact ⟨hcalled.orderly tick, hproceeds.nearer hgoal⟩

/-- Where it stands in AUTO, it goes on standing. -/
theorem scans_standing :
    Scans loader (fun m => m.readHoldingRegister 3 ≤ 450 ∧ m.readDiscreteInput 0 = true)
      (fun d => Orderly d ∧ Standing d)
      (fun d => Called d ∧ d.vars.ix 0 ≠ 0 ∧ Standing d) where
  inputs {d m} h hreads := by
    have hmode := pulled_ix loader m d (loads.bound (k := 0) (by decide)) (.inl rfl)
    exact ⟨h.1.called hreads.1, hmode.mpr hreads.2, (standing_pulled m).mpr h.2⟩
  logic {d} tick h := by
    obtain ⟨hcalled, hmode, hstands⟩ := h
    rw [runLogic_loader]
    have hproceeds :=
      proceeds_configRun hcalled.sound (hcalled.sequenced hmode) hmode hcalled.reached tick
    exact ⟨hcalled.orderly tick, hproceeds.stands hstands⟩

end Plant

/-- After 112 scans in AUTO the sequence waits at the second or the third station,
and it has not left again by the end of the run. That is so from every state the
plant can be in, for every memory and mapping rules, and whatever clients write in
between, as long as no input sync finds a torque set point over 450. -/
theorem trim_standstill (m : PlcMemory) (d : Line ℚ) (es es' : List Event)
    (hphase : (plantAfter loader m d es).phase = .inputs)
    (hreach : Loop.Each (exec loader) InReach (start loader m d) (es ++ es'))
    (hauto : Loop.Each (exec loader) StaysAuto (plantAfter loader m d es) es')
    (hmany : 3 * 112 ≤ es'.count .step) :
    Standing (plantAfter loader m d (es ++ es')).dll := by
  obtain ⟨hbefore, hafter⟩ := Loop.each_append.mp hreach
  have hinit : Orderly (loader.initLogic d) := by
    rw [initLogic_loader]
    exact orderly_configInit d
  have hkept : Around Orderly Called (plantAfter loader m d es) :=
    scans_orderly.run (around_start hinit m) hbefore
  obtain ⟨s, hs⟩ : ∃ s, plantAfter loader m d es = s := ⟨_, rfl⟩
  have hend : plantAfter loader m d (es ++ es') = run loader s es' := by
    rw [plantAfter, run_append, ← hs, plantAfter]
  have hafter : Loop.Each (exec loader) InReach s es' := hs ▸ hafter
  rw [hs] at hphase hauto hkept
  rw [hend]
  have horderly := hkept.rest (by rw [hphase]; decide)
  have hleft := left_le horderly.sound horderly.sequenced
  have hreads := Reads.and hafter hauto
  obtain ⟨before, after, rfl, hlogic, hstands⟩ :=
    advances.exists_goal horderly hphase hreads (by omega)
  obtain ⟨hfirst, -⟩ := Loop.each_append.mp hafter
  obtain ⟨-, -, hrest⟩ := Loop.each_append.mp hreads
  have hcalled := (scans_orderly.run hkept hfirst).call hlogic
  obtain ⟨s', hs'⟩ : ∃ s', run loader s before = s' := ⟨_, rfl⟩
  have hrest : Loop.Each (exec loader) (Reads fun m => m.readHoldingRegister 3 ≤ 450 ∧
      m.readDiscreteInput 0 = true) (step loader s') after := hs' ▸ hrest
  rw [run_append, run_cons, exec]
  rw [hs'] at hlogic hstands hcalled ⊢
  have hstuck : Around (fun d => Orderly d ∧ Standing d)
      (fun d => Called d ∧ d.vars.ix 0 ≠ 0 ∧ Standing d) (step loader s') := by
    have horderly := scans_orderly.logic s'.tick hcalled
    rw [step_logic loader hlogic]
    exact .of_rest (by simp) ⟨horderly, hstands⟩
  have hends := scans_standing.run hstuck hrest
  by_cases hphase' : (run loader (step loader s') after).phase = .logic
  · exact (hends.call hphase').2.2
  · exact (hends.rest hphase').2

/-- A client holds the switch and the set point, and the scheduler makes a scan. -/
def heldAuto : List Event := heldScan [.discreteInput 0 true, .holdingRegister 3 450]

theorem heldAuto_reads {s : Plant (Private ℚ)}
    (h : AtScan s ∧ 0 < s.mem.size .di ∧ 3 < s.mem.size .hr) :
    Loop.Each (exec loader)
      (Reads fun m => m.readHoldingRegister 3 ≤ 450 ∧ m.readDiscreteInput 0 = true) s heldAuto ∧
      AtScan (heldAuto.foldl (exec loader) s) ∧
      0 < (heldAuto.foldl (exec loader) s).mem.size .di ∧
      3 < (heldAuto.foldl (exec loader) s).mem.size .hr := by
  obtain ⟨hat, hdi, hhr⟩ := h
  have hmode := PlcMemory.readDiscreteInput_writeDiscreteInput s.mem 0 true hdi 0
  have hset : ((s.mem.writeDiscreteInput 0 true).writeHoldingRegister 3 450).readHoldingRegister
      3 ≤ 450 := by
    show ((s.mem.writeDiscreteInput 0 true).set .hr 3 450).get .hr 3 ≤ 450
    rw [PlcMemory.get_set_same, PlcMemory.writeDiscreteInput_eq, PlcMemory.size_set,
      if_pos ⟨rfl, hhr⟩]
    exact UInt16.le_refl 450
  obtain ⟨heach, hscan, hsize⟩ := heldScan_reads loader
    [.discreteInput 0 true, .holdingRegister 3 450]
    (P := fun m => m.readHoldingRegister 3 ≤ 450 ∧ m.readDiscreteInput 0 = true) hat
    ⟨hset, hmode.trans (if_pos rfl)⟩
  exact ⟨heach, hscan, (hsize .di).symm ▸ hdi, (hsize .hr).symm ▸ hhr⟩

theorem trim_standstill_held :
    Standing (plantAfter loader PlcMemory.default trimLine
      ([] ++ (List.replicate 112 heldAuto).flatten)).dll := by
  obtain ⟨hscan, hsize⟩ := atScan_start (loader (D := ℚ)) (m := PlcMemory.default) rfl trimLine
  have hdi : 0 < (start loader PlcMemory.default trimLine).mem.size .di := by
    rw [hsize]
    exact (by decide : 0 < 1024).trans_le (PlcMemory.size_default .di).1
  have hhr : 3 < (start loader PlcMemory.default trimLine).mem.size .hr := by
    rw [hsize]
    exact (by decide : 3 < 1024).trans_le (PlcMemory.size_default .hr).1
  have hheld := Loop.each_repeat
    (I := fun s : Plant (Private ℚ) => AtScan s ∧ 0 < s.mem.size .di ∧ 3 < s.mem.size .hr)
    (fun s h => heldAuto_reads h) 112 ⟨hscan, hdi, hhr⟩
  have hreach := hheld.imp (I := fun _ => True) (Q := InReach)
    (fun _ _ _ h => ⟨fun hstep hinputs => (h hstep hinputs).1, trivial⟩) trivial
  have hauto := hheld.imp (I := fun _ => True) (Q := StaysAuto)
    (fun _ _ _ h => ⟨fun hstep hinputs => (h hstep hinputs).2, trivial⟩) trivial
  refine trim_standstill PlcMemory.default trimLine [] (List.replicate 112 heldAuto).flatten
    ?_ ?_ ?_ ?_
  · rw [plantAfter_nil]
    exact hscan.phase
  · rw [List.nil_append]
    exact hreach
  · rw [plantAfter_nil]
    exact hauto
  have hcount : heldAuto.count .step = 3 := by decide
  rw [List.count_flatten, List.map_replicate, List.sum_replicate, hcount]
  decide

end Trim

end VPlc
