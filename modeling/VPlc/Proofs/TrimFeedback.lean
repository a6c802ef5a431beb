import VPlc.Proofs.TrimConveyor

/-!
# The range of the feedback values

Two of the simulated values hover around a target by a jitter that is taken from
the tick: `tick % 5 - 2` for the torque, `tick % 3 - 1` for the load. The
subtraction is unsigned. When the remainder is too small it wraps, the value is
near `2 ^ 64`, and converting it to sixteen bits is undefined. Everything else
stays in its range, so a scan keeps the ranges exactly if neither jitter wraps in
it (`stays_iff`).
-/

namespace VPlc

namespace Trim

/-! ## The jitter -/

theorem toNat_sub_of_lt {a b : UInt64} (h : a < b) :
    (a - b).toNat = 2 ^ 64 + a.toNat - b.toNat := by
  have hlt := UInt64.lt_iff_toNat_lt.mp h
  have hb := b.toNat_lt
  rw [UInt64.toNat_sub]
  omega

/-- The jitter of the torque is at most two, or it has wrapped. -/
theorem jitter_torque (tick : UInt64) :
    if tick % 5 < 2 then 1000 ≤ (tick % 5 - 2).toNat else (tick % 5 - 2).toNat ≤ 2 := by
  have hmod : (tick % 5).toNat < 5 := by
    rw [UInt64.toNat_mod]
    exact Nat.mod_lt _ (by decide)
  have h2 : (2 : UInt64).toNat = 2 := rfl
  split
  · next h =>
      rw [toNat_sub_of_lt h, h2]
      omega
  · next h =>
      rw [UInt64.toNat_sub_of_le _ _ (UInt64.not_lt.mp h), h2]
      omega

/-- The jitter of the load is at most one, or it has wrapped. -/
theorem jitter_load (tick : UInt64) :
    if tick % 3 = 0 then 1000 ≤ (tick % 3 - 1).toNat else (tick % 3 - 1).toNat ≤ 1 := by
  have hmod : (tick % 3).toNat < 3 := by
    rw [UInt64.toNat_mod]
    exact Nat.mod_lt _ (by decide)
  have h1 : (1 : UInt64).toNat = 1 := rfl
  split
  · next h =>
      rw [h]
      exact Nat.le_of_ble_eq_true rfl
  · next h =>
      have hpos : (tick % 3).toNat ≠ 0 := fun h0 => h (UInt64.toNat_inj.mp h0)
      rw [UInt64.toNat_sub_of_le _ _ (UInt64.le_iff_toNat_le.mpr (by rw [h1]; omega)), h1]
      omega

/-- A value that climbs to `high` and then hovers over `base` stays in its range
exactly if the jitter has not wrapped where it is taken. -/
theorem hover_le_iff {x high base top : ℚ} {n k : Nat} {wrap : Prop} [Decidable wrap]
    (hjitter : if wrap then 1000 ≤ n else n ≤ k) (hx : 0 ≤ x) (hhigh : high ≤ top)
    (hbase : 0 ≤ base) (hk : base + k ≤ top) (htop : top < base + 1000) :
    (0 ≤ (if high < x then base + n else x) ∧ (if high < x then base + n else x) ≤ top) ↔
      ¬ (high < x ∧ wrap) := by
  by_cases hover : high < x
  · rw [if_pos hover]
    by_cases hwrap : wrap
    · rw [if_pos hwrap] at hjitter
      have hn : (1000 : ℚ) ≤ n := by exact_mod_cast hjitter
      refine iff_of_false ?_ fun hno => hno ⟨hover, hwrap⟩
      rintro ⟨-, hle⟩
      linarith
    · rw [if_neg hwrap] at hjitter
      have hn : (n : ℚ) ≤ k := by exact_mod_cast hjitter
      have hpos : (0 : ℚ) ≤ n := Nat.cast_nonneg n
      exact iff_of_true ⟨by linarith, by linarith⟩ fun hno => hwrap hno.2
  · rw [if_neg hover]
    have hle := not_lt.mp hover
    exact iff_of_true ⟨hx, by linarith⟩ fun hno => hover hno.1

theorem tighten_eq (tick : UInt64) (t : ℚ) : tighten tick t =
    if 452 < t + 22.5 then 450 + ((tick % 5 - 2).toNat : ℚ) else t + 22.5 := by
  unfold tighten
  norm_num
  rfl

theorem ramp_eq (tick : UInt64) (l : ℚ) : ramp tick l =
    if 152 < l + 10 then 150 + ((tick % 3 - 1).toNat : ℚ) else l + 10 := by
  unfold ramp
  norm_num
  rfl

theorem tighten_le_iff {tick : UInt64} {t : ℚ} (h : 0 ≤ t) :
    (0 ≤ tighten tick t ∧ tighten tick t ≤ 475) ↔ ¬ (452 < t + 22.5 ∧ tick % 5 < 2) := by
  rw [tighten_eq]
  exact hover_le_iff (jitter_torque tick) (by norm_num; linarith) (by norm_num)
    (by norm_num) (by norm_num) (by norm_num)

theorem ramp_le_iff {tick : UInt64} {l : ℚ} (h : 0 ≤ l) :
    (0 ≤ ramp tick l ∧ ramp tick l ≤ 162) ↔ ¬ (152 < l + 10 ∧ tick % 3 = 0) := by
  rw [ramp_eq]
  exact hover_le_iff (jitter_load tick) (by linarith) (by norm_num) (by norm_num)
    (by norm_num) (by norm_num)

/-! ## One scan -/

/-- The ranges of the four values. -/
structure InRange (p : Private ℚ) : Prop where
  torque : 0 ≤ p.boltTorque ∧ p.boltTorque ≤ 475
  load : 0 ≤ p.glassPressLoad ∧ p.glassPressLoad ≤ 162
  pos : 0 ≤ p.conveyorPos ∧ p.conveyorPos < 1000
  temp : 0 ≤ p.glueTemp ∧ p.glueTemp ≤ 41

/-- The machine's layer of a scan. -/
def machine (d : Line ℚ) (u : Inputs) : Line ℚ :=
  simulate u.tick (lamps u.tick (u.apply d))

/-- What the machine's layer converts to sixteen bits. -/
def conversions (d : Line ℚ) (u : Inputs) : List ℚ :=
  let p := (machine d u).priv
  [p.conveyorPos + 0.5, p.boltTorque + 0.5, p.glueTemp + 0.5, p.glassPressLoad + 0.5]

/-- After the scan the values are in range, and it converted nothing that does
not fit. -/
def StaysInRange (d : Line ℚ) (u : Inputs) : Prop :=
  InRange (scan d u).priv ∧ ∀ x ∈ conversions d u, 0 ≤ x ∧ x < 65536

/-- The scan takes neither jitter at a tick at which it wraps: the torque's while
the nutrunner tightens and is past its target, the load's while the robot presses
and is past its own. -/
def NoWrap (d : Line ℚ) (u : Inputs) : Prop :=
  let e := u.apply d
  ¬ ((e.vars.qx 2 ≠ 0 ∧ 0.95 ≤ travel 0.05 (e.vars.qx 1) e.priv.cockpitDockPos) ∧
      452 < e.priv.boltTorque + 22.5 ∧ u.tick % 5 < 2) ∧
    ¬ (e.vars.qx 3 ≠ 0 ∧ 152 < e.priv.glassPressLoad + 10 ∧ u.tick % 3 = 0)

section Machine

variable {D : Type} [Double D] (tick : UInt64) (d : Line D)

theorem boltTorque_simulate : (simulate tick d).priv.boltTorque = torque tick d := by
  have hcoils := (SameCommands.refl d).conveyor.coils
  have hdock : (conveyor d).priv.cockpitDockPos = d.priv.cockpitDockPos := by
    rw [priv_conveyor]
  have hbolt : (conveyor d).priv.boltTorque = d.priv.boltTorque := by
    rw [priv_conveyor]
  simp [simulate, lifter, priv_press, heater, nutrunner, dock, torque, hdock, hbolt,
    hcoils 1, hcoils 2]

theorem glueTemp_simulate : (simulate tick d).priv.glueTemp =
    if d.priv.glueTemp < 40.0 then d.priv.glueTemp + 0.15 else d.priv.glueTemp - 0.05 := by
  have htemp : (conveyor d).priv.glueTemp = d.priv.glueTemp := by
    rw [priv_conveyor]
  simp [simulate, lifter, priv_press, heater, nutrunner, dock, htemp]

theorem glassPressLoad_simulate :
    (simulate tick d).priv.glassPressLoad = pressLoad tick d := by
  have hcoil := (SameCommands.refl d).conveyor.coils 3 (by decide)
  have hload : (conveyor d).priv.glassPressLoad = d.priv.glassPressLoad := by
    rw [priv_conveyor]
  simp [simulate, lifter, priv_press, heater, nutrunner, dock, pressLoad, hcoil, hload]

theorem torque_lamps : torque tick (lamps tick d) = torque tick d := by
  have hcoils := ((SameCommands.refl d).lamps tick).coils
  obtain ⟨flash, hpriv⟩ := priv_lamps tick d
  rw [torque, hcoils 1 (by decide), hcoils 2 (by decide), hpriv]
  rfl

theorem pressLoad_lamps : pressLoad tick (lamps tick d) = pressLoad tick d := by
  have hcoil := ((SameCommands.refl d).lamps tick).coils 3 (by decide)
  obtain ⟨flash, hpriv⟩ := priv_lamps tick d
  rw [pressLoad, hcoil, hpriv]
  rfl

end Machine

theorem torque_le_iff (tick : UInt64) (d : Line ℚ) (h : 0 ≤ d.priv.boltTorque) :
    (0 ≤ torque tick d ∧ torque tick d ≤ 475) ↔
      ¬ ((d.vars.qx 2 ≠ 0 ∧ 0.95 ≤ travel 0.05 (d.vars.qx 1) d.priv.cockpitDockPos) ∧
        452 < d.priv.boltTorque + 22.5 ∧ tick % 5 < 2) := by
  rw [torque]
  split
  · next hon =>
      rw [tighten_le_iff h, and_iff_right hon]
  · next hoff =>
      refine iff_of_true ?_ fun hon => hoff hon.1
      norm_num

theorem pressLoad_le_iff (tick : UInt64) (d : Line ℚ) (h : 0 ≤ d.priv.glassPressLoad) :
    (0 ≤ pressLoad tick d ∧ pressLoad tick d ≤ 162) ↔
      ¬ (d.vars.qx 3 ≠ 0 ∧ 152 < d.priv.glassPressLoad + 10 ∧ tick % 3 = 0) := by
  rw [pressLoad]
  split
  · next hon =>
      rw [ramp_le_iff h, and_iff_right hon]
  · next hoff =>
      refine iff_of_true ?_ fun hon => hoff hon.1
      norm_num

theorem conveyorPos_range (d : Line ℚ)
    (h : 0 ≤ d.priv.conveyorPos ∧ d.priv.conveyorPos < 1000) :
    0 ≤ (conveyor d).priv.conveyorPos ∧ (conveyor d).priv.conveyorPos < 1000 := by
  by_cases hon : d.vars.qx 0 = 0
  · rw [conveyorPos_conveyor, if_neg (not_not.mpr hon)]
    exact h
  rw [conveyorPos_moved d hon]
  have hadv : 0 ≤ advance d.priv.conveyorPos ∧ advance d.priv.conveyorPos < 1000 := by
    rcases advance_cases d.priv.conveyorPos with ⟨hlt, hadv⟩ | ⟨-, hadv⟩ <;> rw [hadv]
    · exact ⟨by linarith, hlt⟩
    · norm_num
  rcases pass_cases (d.vars.mw 4) (advance d.priv.conveyorPos) with ⟨-, -, hpass⟩ |
    ⟨-, -, -, hpass⟩ | ⟨-, -, hpass⟩ | ⟨-, -, hpass⟩ | ⟨-, -, -, -, hpass⟩ <;> rw [hpass]
  · norm_num
  · norm_num
  · norm_num
  · norm_num
  · exact hadv

theorem heater_range {t : ℚ} (h : 0 ≤ t ∧ t ≤ 41) :
    0 ≤ (if t < 40.0 then t + 0.15 else t - 0.05) ∧
      (if t < 40.0 then t + 0.15 else t - 0.05) ≤ 41 := by
  split
  · next hcold =>
      norm_num at hcold ⊢
      constructor <;> linarith
  · next hwarm =>
      norm_num at hwarm ⊢
      constructor <;> linarith

/-! ## Runs in range -/

/-- The sequence and the mode move the hanger at most, and to a fixed place. -/
theorem priv_scan {d : Line ℚ} (u : Inputs) (h : Ready d) : ∃ state pos,
    (scan d u).priv =
      { (machine d u).priv with conveyorPos := pos, trimSfcState := state } ∧
    (pos = (machine d u).priv.conveyorPos ∨ pos = 925) := by
  obtain ⟨m, hm⟩ : ∃ m, machine d u = m := ⟨_, rfl⟩
  rw [hm]
  rw [machine] at hm
  by_cases hauto : u.auto = 0
  · rw [scan_manual u h hauto, hm]
    exact ⟨_, _, rfl, .inl rfl⟩
  · rw [scan_auto u h hauto, hm]
    obtain ⟨state, pos, hpriv, hpos⟩ := priv_sequence u.tick m
    refine ⟨state, pos, hpriv, ?_⟩
    rcases hpos with hpos | ⟨-, hpos⟩
    · exact .inl hpos
    · right
      rw [hpos]
      norm_num

theorem stays_iff {d : Line ℚ} (u : Inputs) (h : Ready d) (hin : InRange d.priv) :
    StaysInRange d u ↔ NoWrap d u := by
  have htorque := torque_le_iff u.tick (u.apply d) hin.torque.1
  have hload := pressLoad_le_iff u.tick (u.apply d) hin.load.1
  have hmtorque : (machine d u).priv.boltTorque = torque u.tick (u.apply d) := by
    rw [machine, boltTorque_simulate, torque_lamps]
  have hmload : (machine d u).priv.glassPressLoad = pressLoad u.tick (u.apply d) := by
    rw [machine, glassPressLoad_simulate, pressLoad_lamps]
  obtain ⟨flash, hlamps⟩ := priv_lamps u.tick (u.apply d)
  have hpos : 0 ≤ (machine d u).priv.conveyorPos ∧
      (machine d u).priv.conveyorPos < 1000 := by
    rw [machine, conveyorPos_simulate]
    refine conveyorPos_range _ ?_
    rw [hlamps]
    exact hin.pos
  have htemp : 0 ≤ (machine d u).priv.glueTemp ∧ (machine d u).priv.glueTemp ≤ 41 := by
    rw [machine, glueTemp_simulate, hlamps]
    exact heater_range hin.temp
  obtain ⟨state, pos, hscan, hend⟩ := priv_scan u h
  rw [StaysInRange, conversions, NoWrap, ← htorque, ← hload, ← hmtorque, ← hmload, hscan]
  obtain ⟨p, hp⟩ : ∃ p, (machine d u).priv = p := ⟨_, rfl⟩
  rw [hp] at hpos htemp hend ⊢
  constructor
  · rintro ⟨hafter, -⟩
    exact ⟨hafter.torque, hafter.load⟩
  · rintro ⟨ht, hl⟩
    refine ⟨⟨ht, hl, ?_, htemp⟩, ?_⟩
    · show 0 ≤ pos ∧ pos < 1000
      rcases hend with rfl | rfl
      · exact hpos
      · norm_num
    · have hfits {x : ℚ} {top : ℚ} (hx : 0 ≤ x) (hle : x ≤ top) (htop : top ≤ 1000) :
          0 ≤ x + 0.5 ∧ x + 0.5 < 65536 := by
        norm_num
        constructor <;> linarith
      simp only [List.forall_mem_cons]
      exact ⟨hfits hpos.1 hpos.2.le le_rfl, hfits ht.1 ht.2 (by norm_num),
        hfits htemp.1 htemp.2 (by norm_num), hfits hl.1 hl.2 (by norm_num),
        fun _ hx => absurd hx List.not_mem_nil⟩

theorem inRange_configInit (d : Line ℚ) : InRange (configInit d).priv := by
  refine ⟨?_, ?_, ?_, ?_⟩ <;> simp only [configInit] <;> norm_num

/-- A run stays in range exactly if no scan of it takes a jitter that wraps. -/
theorem trim_feedback_iff (d : Line ℚ) (us : List Inputs) :
    Loop.Each scan StaysInRange (configInit d) us ↔
      Loop.Each scan NoWrap (configInit d) us := by
  have hiff (d : Line ℚ) (u : Inputs) (h : Ready d ∧ InRange d.priv) :
      StaysInRange d u ↔ NoWrap d u := stays_iff u h.1 h.2
  have hkeep (d : Line ℚ) (u : Inputs) (h : Ready d ∧ InRange d.priv)
      (hstays : StaysInRange d u) : Ready (scan d u) ∧ InRange (scan d u).priv :=
    ⟨h.1.scan u, hstays.1⟩
  exact Loop.each_congr hiff hkeep us ⟨ready_configInit d, inRange_configInit d⟩

/-- Scans in MANUAL from tick zero on, with the glass robot on. -/
def pressing (n : Nat) : List Inputs :=
  (List.range n).map fun t =>
    ⟨UInt64.ofNat t, 0, Function.update (fun _ => 0) 3 1, fun _ => 0⟩

/-- The load climbs to 150, and then the first jitter is that of tick 15. -/
theorem trim_feedback_wraps :
    ¬ ∀ (d : Line ℚ) (us : List Inputs), Loop.Each scan StaysInRange (configInit d) us := by
  intro h
  have hsplit : pressing 16 = pressing 15 ++ ⟨15, 0, Function.update (fun _ => 0) 3 1,
      fun _ => 0⟩ :: [] := by
    rw [pressing, List.range_succ, List.map_append]
    rfl
  have heach := h idle (pressing 16)
  rw [hsplit] at heach
  have hload := heach.split.1.load.2
  revert hload
  decide +kernel

end Trim

end VPlc
