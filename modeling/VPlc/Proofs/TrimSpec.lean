import VPlc.Logic.Trim

/-!
# What the layers of the trim logic do

The lamps and the simulated machine set sensors, registers and lamps, and leave
the mode, the stop, the sequence and its five actuators alone (`SameCommands`).
So the sequence meets the coils the scan began with, and its guards can be read
off what the scan began with too: `approach1` to `approach4`, `torque`,
`pressLoad` and `travel` are the machine's next position, and `Settles` is the
guard in their terms (`done_simulate`).

The sequence keeps one thing of its own: in a state no actuator is on but those
it drives (`Driven`). With it, a step of the sequence leaves all five off exactly
if the guard is met (`sequence_spec`), and a call of `configRun` does
(`configRun_auto`).
-/

namespace VPlc

namespace Trim

variable {D : Type}

/-! ## What the layers leave alone -/

theorem forall_lt_five {P : UInt16 → Prop} :
    (∀ k < 5, P k) ↔ P 0 ∧ P 1 ∧ P 2 ∧ P 3 ∧ P 4 := by
  refine ⟨fun h => ⟨h 0 (by decide), h 1 (by decide), h 2 (by decide),
    h 3 (by decide), h 4 (by decide)⟩, ?_⟩
  rintro ⟨h0, h1, h2, h3, h4⟩ k hk
  have hcases : k = 0 ∨ k = 1 ∨ k = 2 ∨ k = 3 ∨ k = 4 := by
    simp only [← UInt16.toNat_inj, UInt16.lt_iff_toNat_lt] at hk ⊢
    simp only [UInt16.reduceToNat] at hk ⊢
    omega
  rcases hcases with rfl | rfl | rfl | rfl | rfl <;> assumption

/-- Same registers, same commands to the machine, same place in the sequence. -/
structure SameCommands (d d' : Line D) : Prop where
  coils : ∀ k < 5, d'.vars.qx k = d.vars.qx k
  registers : d'.vars.mw = d.vars.mw
  mode : d'.vars.ix 0 = d.vars.ix 0
  stop : d'.vars.ix 5 = d.vars.ix 5
  state : d'.priv.trimSfcState = d.priv.trimSfcState

namespace SameCommands

variable {d d' : Line D}

theorem refl (d : Line D) : SameCommands d d :=
  ⟨fun _ _ => rfl, rfl, rfl, rfl, rfl⟩

theorem setIx (h : SameCommands d d') {k : UInt16} (h0 : 0 ≠ k) (h5 : 5 ≠ k)
    (x : UInt8) : SameCommands d (d'.setIx k x) where
  coils := h.coils
  registers := h.registers
  mode := (Function.update_of_ne h0 _ _).trans h.mode
  stop := (Function.update_of_ne h5 _ _).trans h.stop
  state := h.state

theorem setQx (h : SameCommands d d') {k : UInt16} (hk : ∀ i < 5, i ≠ k)
    (x : UInt8) : SameCommands d (d'.setQx k x) :=
  { h with coils := fun i hi =>
      (Function.update_of_ne (hk i hi) _ _).trans (h.coils i hi) }

theorem setIw (h : SameCommands d d') (k x : UInt16) :
    SameCommands d (d'.setIw k x) := { h with }

theorem setPriv (h : SameCommands d d') {p : Private D}
    (hp : p.trimSfcState = d'.priv.trimSfcState) :
    SameCommands d ⟨d'.vars, p⟩ := { h with state := hp.trans h.state }

theorem moveTo (h : SameCommands d d') (pos : D) :
    SameCommands d (moveTo pos d') := h.setPriv rfl

theorem lamps (h : SameCommands d d') (tick : UInt64) :
    SameCommands d (lamps tick d') := by
  have hlamp : ∀ k : UInt16, 5 ≤ k → ∀ i < 5, i ≠ k := by
    rintro k hk i hi rfl
    exact absurd hk (UInt16.not_le.mpr hi)
  have hsiren : SameCommands d
      (if d'.priv.trimSfcState ≠ 7 then d'.setQx 6 0 else d') := by
    split
    · exact h.setQx (hlamp 6 (by decide)) 0
    · exact h
  simp only [Trim.lamps]
  refine setQx ?_ (hlamp 7 (by decide)) _
  split
  · exact hsiren.setPriv rfl
  · exact hsiren

variable [Double D]

theorem station (h : SameCommands d d') {k : UInt16} (h0 : 0 ≠ k) (h5 : 5 ≠ k)
    (lo hi : D) : SameCommands d (station k lo hi d') := by
  simp only [Trim.station]
  split
  · exact (h.moveTo lo).setIx h0 h5 1
  · exact h.setIx h0 h5 0

theorem conveyor (h : SameCommands d d') : SameCommands d (conveyor d') := by
  simp only [Trim.conveyor]
  refine setIw ?_ 0 _
  split
  · have hfirst := (h.moveTo (advance d'.priv.conveyorPos)).station
      (k := 1) (by decide) (by decide) 200.0 210.0
    refine station (station ?_ (by decide) (by decide) _ _) (by decide)
      (by decide) _ _
    split
    · exact hfirst.station (by decide) (by decide) _ _
    · exact hfirst.setIx (by decide) (by decide) 0
  · exact h

theorem press (h : SameCommands d d') (tick : UInt64) :
    SameCommands d (press tick d') := by
  simp only [Trim.press]
  refine setIw ?_ 2 _
  split
  · have hload : SameCommands d ⟨d'.vars, { d'.priv with
        glassPressLoad := ramp tick d'.priv.glassPressLoad }⟩ := h.setPriv rfl
    split <;> split
    · exact (hload.setIx (k := 6) (by decide) (by decide) 1).setIx (by decide)
        (by decide) _
    · exact hload.setIx (by decide) (by decide) _
    · exact hload.setIx (by decide) (by decide) 1
    · exact hload
  · refine setIx ?_ (by decide) (by decide) 0
    exact h.setPriv rfl

theorem simulate (h : SameCommands d d') (tick : UInt64) :
    SameCommands d (simulate tick d') := by
  have hdock : SameCommands d (dock (Trim.conveyor d')) := h.conveyor.setPriv rfl
  have hnutrunner : SameCommands d (nutrunner tick (dock (Trim.conveyor d'))) := by
    refine setIw ?_ 1 _
    exact hdock.setPriv rfl
  have hheater : SameCommands d
      (heater (nutrunner tick (dock (Trim.conveyor d')))) := by
    refine setIw ?_ 3 _
    exact hnutrunner.setPriv rfl
  exact (hheater.press tick).setPriv rfl

end SameCommands

/-! ## What the devices do -/

section Devices

variable [Double D]

/-- A hanger that passes a station, and stops there if it is in the window. -/
def halt (lo hi pos : D) : D := if Within lo hi pos then lo else pos

theorem priv_station (k : UInt16) (lo hi : D) (d : Line D) :
    (station k lo hi d).priv =
      { d.priv with conveyorPos := halt lo hi d.priv.conveyorPos } := by
  simp only [station, halt]
  split <;> rfl

theorem ix_station (k j : UInt16) (lo hi : D) (d : Line D) :
    (station k lo hi d).vars.ix j =
      if j = k then if Within lo hi d.priv.conveyorPos then 1 else 0
      else d.vars.ix j := by
  simp only [station]
  split <;> simp [Function.update_apply]

theorem mw_station (k : UInt16) (lo hi : D) (d : Line D) :
    (station k lo hi d).vars.mw = d.vars.mw := by
  simp only [station]
  split <;> rfl

/-- Where the hanger is when station 1 looks, and then 2, 3 and 4. -/
def approach1 (d : Line D) : D := advance d.priv.conveyorPos
def approach2 (d : Line D) : D := halt 200.0 210.0 (approach1 d)
def approach3 (d : Line D) : D :=
  if d.vars.mw 4 ≠ 1 then halt 450.0 460.0 (approach2 d) else approach2 d
def approach4 (d : Line D) : D := halt 700.0 710.0 (approach3 d)

/-- Station `k` sees the moving hanger. -/
def Sees (d : Line D) (k : UInt16) : Prop :=
  k = 1 ∧ Within 200.0 210.0 (approach1 d) ∨
  k = 2 ∧ d.vars.mw 4 ≠ 1 ∧ Within 450.0 460.0 (approach2 d) ∨
  k = 3 ∧ Within 700.0 710.0 (approach3 d) ∨
  k = 4 ∧ Within 900.0 910.0 (approach4 d)

/-- A vehicle is at station `k` after this scan: it is seen there, or it was
there before and the conveyor stands. -/
def Arrives (d : Line D) (k : UInt16) : Prop :=
  if d.vars.qx 0 ≠ 0 then Sees d k else d.vars.ix k ≠ 0

theorem ix_conveyor (d : Line D) {k : UInt16}
    (hk : k = 1 ∨ k = 2 ∨ k = 3 ∨ k = 4) :
    (conveyor d).vars.ix k ≠ 0 ↔ Arrives d k := by
  simp only [conveyor, Arrives]
  split
  · rcases hk with rfl | rfl | rfl | rfl <;> split <;>
      simp_all [Sees, ix_station, priv_station, mw_station, approach1, approach2,
        approach3, approach4, moveTo]
  · rfl

theorem priv_conveyor (d : Line D) :
    (conveyor d).priv =
      { d.priv with conveyorPos := (conveyor d).priv.conveyorPos } := by
  simp only [conveyor]
  split
  · split <;> simp [priv_station, moveTo]
  · rfl

theorem ix_press (tick : UInt64) (d : Line D) {k : UInt16} (h6 : k ≠ 6)
    (h7 : k ≠ 7) : (press tick d).vars.ix k = d.vars.ix k := by
  simp only [press]
  split
  · split <;> split <;> simp [h6, h7]
  · simp [h6]

theorem ix_simulate (tick : UInt64) (d : Line D) {k : UInt16} (h6 : k ≠ 6)
    (h7 : k ≠ 7) : (simulate tick d).vars.ix k = (conveyor d).vars.ix k := by
  simp only [simulate, lifter, ix_press tick _ h6 h7]
  rfl

/-- The torque on the bolts after this scan. The gantry is moved first. -/
def torque (tick : UInt64) (d : Line D) : D :=
  if d.vars.qx 2 ≠ 0 ∧
      0.95 ≤ travel 0.05 (d.vars.qx 1) d.priv.cockpitDockPos then
    tighten tick d.priv.boltTorque
  else 0.0

/-- The load on the glass after this scan. -/
def pressLoad (tick : UInt64) (d : Line D) : D :=
  if d.vars.qx 3 ≠ 0 then ramp tick d.priv.glassPressLoad else 0.0

/-- The glass is aligned after this scan: the robot is at work, and the load is
up or was up before. -/
def Aligned (tick : UInt64) (d : Line D) : Prop :=
  d.vars.qx 3 ≠ 0 ∧ (145.0 ≤ pressLoad tick d ∨ d.vars.ix 6 ≠ 0)

theorem iw_one_press (tick : UInt64) (d : Line D) :
    (press tick d).vars.iw 1 = d.vars.iw 1 := by
  simp only [press]
  split
  · split <;> split <;> simp
  · simp

theorem priv_press (tick : UInt64) (d : Line D) :
    (press tick d).priv = { d.priv with glassPressLoad := pressLoad tick d } := by
  simp only [press, pressLoad]
  split
  · split <;> split <;> rfl
  · rfl

theorem iw_two_press (tick : UInt64) (d : Line D) :
    (press tick d).vars.iw 2 = Double.toUInt16 (pressLoad tick d + 0.5) := by
  simp only [press, pressLoad]
  split
  · split <;> split <;> simp
  · simp

theorem ix_six_press (tick : UInt64) (d : Line D) :
    (press tick d).vars.ix 6 ≠ 0 ↔ Aligned tick d := by
  simp only [press, Aligned, pressLoad]
  split
  · split <;> split <;> simp_all
  · simp_all

theorem iw_one_simulate (tick : UInt64) (d : Line D) :
    (simulate tick d).vars.iw 1 = Double.toUInt16 (torque tick d + 0.5) := by
  have hcoils := (SameCommands.refl d).conveyor.coils
  have hdock : (conveyor d).priv.cockpitDockPos = d.priv.cockpitDockPos := by
    rw [priv_conveyor]
  have hbolt : (conveyor d).priv.boltTorque = d.priv.boltTorque := by
    rw [priv_conveyor]
  simp [simulate, lifter, iw_one_press, heater, nutrunner, dock, torque, hdock,
    hbolt, hcoils 1, hcoils 2]

theorem press_simulate (tick : UInt64) (d : Line D) :
    (simulate tick d).vars.iw 2 = Double.toUInt16 (pressLoad tick d + 0.5) ∧
      ((simulate tick d).vars.ix 6 ≠ 0 ↔ Aligned tick d) := by
  have hqx := (SameCommands.refl d).conveyor.coils 3 (by decide)
  have hload : (conveyor d).priv.glassPressLoad = d.priv.glassPressLoad := by
    rw [priv_conveyor]
  have hix : (conveyor d).vars.ix 6 = d.vars.ix 6 := by
    simp only [conveyor]
    split
    · split <;> simp [ix_station]
    · simp
  simp [simulate, lifter, iw_two_press, ix_six_press, Aligned, pressLoad, heater,
    nutrunner, dock, hqx, hload, hix]

theorem seatLifterPos_simulate (tick : UInt64) (d : Line D) :
    (simulate tick d).priv.seatLifterPos =
      travel 0.033 (d.vars.qx 4) d.priv.seatLifterPos := by
  have hqx := ((SameCommands.refl d).simulate tick).coils 4 (by decide)
  have hseat : (conveyor d).priv.seatLifterPos = d.priv.seatLifterPos := by
    rw [priv_conveyor]
  rw [← hqx]
  simp [simulate, lifter, priv_press, heater, nutrunner, dock, hseat]

end Devices

/-! ## The sequence and its coils -/

/-- The actuators the sequence may have on in a state. -/
def drives : Nat → List UInt16
  | 0 => [0, 1, 2, 3, 4]
  | 1 => [1]
  | 2 => [1, 2]
  | 3 | 5 | 7 => [0]
  | 4 => [3]
  | 6 => [4]
  | _ => []

/-- No other actuator is on. -/
def Driven (d : Line D) : Prop :=
  ∀ k < 5, k ∉ drives d.priv.trimSfcState → d.vars.qx k = 0

theorem Driven.of_state_zero {d : Line D} (h : d.priv.trimSfcState = 0) :
    Driven d := by
  simp [Driven, forall_lt_five, h, drives]

theorem Driven.congr {d d' : Line D} (h : Driven d) (hsame : SameCommands d d') :
    Driven d' := by
  intro k hk hdrives
  rw [hsame.state] at hdrives
  exact (hsame.coils k hk).trans (h k hk hdrives)

theorem qx_qualityGate (d : Line D) {k : UInt16} (h5 : k ≠ 5) (h6 : k ≠ 6) :
    (qualityGate d).vars.qx k = d.vars.qx k := by
  simp only [qualityGate]
  split <;> simp [h5, h6]

theorem ix_qualityGate (d : Line D) : (qualityGate d).vars.ix = d.vars.ix := by
  simp only [qualityGate]
  split <;> rfl

variable [Double D]

/-- The guard under which a state of the sequence switches its actuator off. In
state 1 there is none, and from state 8 on none is driven. -/
def Done (d : Line D) : Prop :=
  match d.priv.trimSfcState with
  | 0 => d.vars.ix 1 ≠ 0
  | 1 => False
  | 2 => d.vars.mw 3 ≤ d.vars.iw 1
  | 3 => d.vars.ix 2 ≠ 0
  | 4 => d.vars.ix 6 ≠ 0 ∧ 148 ≤ d.vars.iw 2
  | 5 => d.vars.ix 3 ≠ 0
  | 6 => 0.95 ≤ d.priv.seatLifterPos
  | 7 => d.vars.ix 4 ≠ 0
  | _ => True

/-- One step of the sequence: the coils it leaves on belong to its new state,
and they are all off exactly if the guard was met. -/
theorem sequence_spec {d : Line D} (tick : UInt64) (h : Driven d) :
    Driven (sequence tick d) ∧
      ((∀ k < 5, (sequence tick d).vars.qx k = 0) ↔ Done d) := by
  simp only [Driven, forall_lt_five] at h ⊢
  match hstate : d.priv.trimSfcState with
  | 0 | 2 | 4 | 5 | 6 =>
      simp only [hstate, drives] at h
      simp only [sequence, Done, hstate]
      split
      · next hguard => simpa [drives, h] using hguard
      · next hguard => simpa [drives, h, hstate] using hguard
  | 1 | 8 =>
      simp only [hstate, drives] at h
      simp only [sequence, Done, hstate]
      split <;> simp [drives, h, hstate]
  | 3 =>
      -- Without a vehicle at the station the bypass moves on, conveyor running.
      simp only [sequence, Done, hstate]
      split
      · simp_all [drives]
      · split <;> simp_all [drives]
  | 7 =>
      simp only [sequence, Done, hstate]
      split <;> simp_all [drives, qx_qualityGate]
  | n + 9 =>
      simp only [sequence, Done, hstate]
      simp_all [drives]

theorem ix_sequence (tick : UInt64) (d : Line D) {k : UInt16} (hk : k ≠ 4) :
    (sequence tick d).vars.ix k = d.vars.ix k := by
  simp only [sequence]
  split
  · split <;> rfl
  · split <;> rfl
  · split <;> rfl
  · split
    · rfl
    · split <;> rfl
  · split <;> rfl
  · split <;> rfl
  · split <;> rfl
  · split
    · simp [ix_qualityGate]
    · rfl
  · split
    · simp [hk]
    · rfl
  · rfl

/-! ## One call -/

/-- The guard of the sequence's state, from what the scan starts with. -/
def Settles (tick : UInt64) (d : Line D) : Prop :=
  match d.priv.trimSfcState with
  | 0 => Arrives d 1
  | 1 => False
  | 2 => d.vars.mw 3 ≤ Double.toUInt16 (torque tick d + 0.5)
  | 3 => Arrives d 2
  | 4 => Aligned tick d ∧ 148 ≤ Double.toUInt16 (pressLoad tick d + 0.5)
  | 5 => Arrives d 3
  | 6 => 0.95 ≤ travel 0.033 (d.vars.qx 4) d.priv.seatLifterPos
  | 7 => Arrives d 4
  | _ => True

theorem done_simulate (tick : UInt64) (d : Line D) :
    Done (simulate tick d) ↔ Settles tick d := by
  have hsame := (SameCommands.refl d).simulate tick
  have hix : ∀ k : UInt16, k = 1 ∨ k = 2 ∨ k = 3 ∨ k = 4 →
      ((simulate tick d).vars.ix k ≠ 0 ↔ Arrives d k) := by
    intro k hk
    rw [ix_simulate tick d (by rintro rfl; simp at hk) (by rintro rfl; simp at hk)]
    exact ix_conveyor d hk
  simp only [Done, Settles, hsame.state, hsame.registers, iw_one_simulate,
    press_simulate, seatLifterPos_simulate, hix 1 (by simp), hix 2 (by simp),
    hix 3 (by simp), hix 4 (by simp)]

theorem settles_lamps (tick : UInt64) (d : Line D) :
    Settles tick (lamps tick d) ↔ Settles tick d := by
  have hcoils := ((SameCommands.refl d).lamps tick).coils
  obtain ⟨q, f, hlamps⟩ : ∃ q f, lamps tick d =
      ⟨{ d.vars with qx := q }, { d.priv with yellowFlash := f }⟩ := by
    simp only [lamps]
    split <;> split <;> exact ⟨_, _, rfl⟩
  rw [hlamps] at hcoils ⊢
  have hq : ∀ k < 5, q k = d.vars.qx k := hcoils
  simp only [Settles, Arrives, Sees, approach4, approach3, approach2, approach1,
    torque, pressLoad, Aligned, hq 0 (by decide), hq 1 (by decide),
    hq 2 (by decide), hq 3 (by decide), hq 4 (by decide)]

variable (tick : UInt64) {d : Line D}

theorem configRun_eq (hstop : d.vars.ix 5 = 0) :
    configRun tick d =
      if d.vars.ix 0 ≠ 0 then sequence tick (simulate tick (lamps tick d))
      else goto 0 (simulate tick (lamps tick d)) := by
  have hsame := ((SameCommands.refl d).lamps tick).simulate tick
  simp only [configRun, hstop, hsame.mode]
  simp

theorem stop_configRun (hstop : d.vars.ix 5 = 0) :
    (configRun tick d).vars.ix 5 = 0 := by
  have hsame := ((SameCommands.refl d).lamps tick).simulate tick
  rw [configRun_eq tick hstop]
  split
  · rw [ix_sequence _ _ (by decide), hsame.stop, hstop]
  · exact hsame.stop.trans hstop

theorem configRun_auto (hstop : d.vars.ix 5 = 0) (hmode : d.vars.ix 0 ≠ 0)
    (h : Driven d) :
    Driven (configRun tick d) ∧
      ((∀ k < 5, (configRun tick d).vars.qx k = 0) ↔ Settles tick d) := by
  have hsame := ((SameCommands.refl d).lamps tick).simulate tick
  obtain ⟨hdriven, hoff⟩ := sequence_spec tick (h.congr hsame)
  rw [configRun_eq tick hstop, if_pos hmode]
  exact ⟨hdriven, hoff.trans ((done_simulate tick _).trans (settles_lamps tick d))⟩

theorem configRun_manual (hstop : d.vars.ix 5 = 0) (hmode : d.vars.ix 0 = 0) :
    (configRun tick d).priv.trimSfcState = 0 ∧
      ∀ k < 5, (configRun tick d).vars.qx k = d.vars.qx k := by
  have hsame := ((SameCommands.refl d).lamps tick).simulate tick
  rw [configRun_eq tick hstop, if_neg (by simp [hmode])]
  exact ⟨rfl, hsame.coils⟩

end Trim

end VPlc
