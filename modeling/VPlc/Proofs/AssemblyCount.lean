import Mathlib.Tactic.Linarith
import Mathlib.Tactic.NormNum
import VPlc.Loop.Each
import VPlc.Proofs.AssemblyInterlock

/-!
# The completed cars

The counter goes up in the simulated machine, when the conveyor runs past its
end. A cycle is completed in the sequence, which has taken the conveyor off the
station by then and does not start it again: the next chassis begins at zero. So
no scan does both (`count_step`), and the counter agrees with the cycles exactly
as long as neither happens (`completed_cars_iff`).
-/

namespace VPlc

namespace Assembly

/-! ## Runs in AUTO -/

/-- A scan in AUTO with the curtain free. -/
structure AutoScan extends Scan where
  on : auto ≠ 0
  free : curtain = 0

/-- A run that counts the completed cycles. -/
def count (r : Line ℚ × Nat) (s : AutoScan) : Line ℚ × Nat :=
  let d := s.apply r.1
  (d, if r.1.priv.sfcState = 7 ∧ d.priv.sfcState = 0 then r.2 + 1 else r.2)

/-- After the scan `MW0` is the number of completed cycles. -/
def Counted (r : Line ℚ × Nat) (s : AutoScan) : Prop :=
  ((count r s).1.vars.mw 0).toNat = (count r s).2 % 65536

/-- The scan takes the conveyor past its end. -/
def Overruns (d : Line ℚ) (speed : UInt16) : Prop :=
  d.vars.qx 0 ≠ 0 ∧ 1000 ≤ d.priv.conveyorPos + speed.toNat * 0.02

/-- The sequence returns the arm, and the scan brings it home. -/
def Returns (d : Line ℚ) : Prop :=
  d.priv.sfcState = 7 ∧
    travel 0.04 (decide (d.vars.qx 1 ≠ 0)) d.priv.liftPos ≤ 0.05 ∧
    travel 0.033 (decide (d.vars.qx 3 ≠ 0)) d.priv.rotatePos ≤ 0.05

/-- Neither happens. -/
def Uneventful (r : Line ℚ × Nat) (s : AutoScan) : Prop :=
  ¬ Overruns r.1 s.speed ∧ ¬ Returns r.1

/-! ## The machine -/

theorem mw_transport (d : Line ℚ) :
    ((transport d).vars.mw 0 = d.vars.mw 0 + 1 ∧
      1000 ≤ d.priv.conveyorPos + (d.vars.mw 1).toNat * 0.02) ∨
    ((transport d).vars.mw 0 = d.vars.mw 0 ∧
      ¬ 1000 ≤ d.priv.conveyorPos + (d.vars.mw 1).toNat * 0.02) := by
  obtain ⟨pos, hpos⟩ : ∃ pos : ℚ,
      d.priv.conveyorPos + Double.ofUInt64 (d.vars.mw 1).toUInt64 * 0.02 = pos := ⟨_, rfl⟩
  have hsum : d.priv.conveyorPos + (d.vars.mw 1).toNat * 0.02 = pos := hpos
  rw [hsum]
  simp only [transport, hpos]
  by_cases hstation : 500.0 ≤ pos ∧ pos < 520.0
  · -- stopped at the station, it is not at the end
    right
    rw [if_pos hstation, if_neg (by norm_num [moveTo])]
    refine ⟨rfl, ?_⟩
    norm_num at hstation
    linarith [hstation.2]
  · rw [if_neg hstation]
    by_cases hend : 1000.0 ≤ pos
    · left
      rw [if_pos (by exact hend)]
      norm_num at hend
      exact ⟨by simp [moveTo], hend⟩
    · right
      rw [if_neg (by exact hend)]
      norm_num at hend
      exact ⟨rfl, not_le.mpr hend⟩

theorem mw_conveyor (d : Line ℚ) (hfree : eStop d = false) :
    ((conveyor d).vars.mw 0 = d.vars.mw 0 + 1 ∧ Overruns d (d.vars.mw 1)) ∨
      ((conveyor d).vars.mw 0 = d.vars.mw 0 ∧ ¬ Overruns d (d.vars.mw 1)) := by
  by_cases hon : d.vars.qx 0 = 0
  · right
    rw [conveyor, if_neg fun h => h.1 hon]
    exact ⟨rfl, fun h => h.1 hon⟩
  · rw [conveyor, if_pos ⟨hon, hfree⟩]
    rcases mw_transport d with ⟨hup, hend⟩ | ⟨hkeep, hend⟩
    · exact .inl ⟨hup, hon, hend⟩
    · exact .inr ⟨hkeep, fun h => hend h.2⟩

/-- With the curtain free, of what the counting reads. -/
structure Moved (d d' : Line ℚ) : Prop where
  coil : d'.vars.qx 0 = d.vars.qx 0
  count : (d'.vars.mw 0 = d.vars.mw 0 + 1 ∧ Overruns d (d.vars.mw 1)) ∨
    (d'.vars.mw 0 = d.vars.mw 0 ∧ ¬ Overruns d (d.vars.mw 1))
  home : d'.vars.ix 3 ≠ 0 ↔ d'.priv.liftPos ≤ 0.05 ∧ d'.priv.rotatePos ≤ 0.05

theorem simulate_moved (d : Line ℚ) (tick : UInt64) (hfree : eStop d = false) :
    Moved d (simulate tick d) := by
  have hlamps : lightCurtain tick d = (d.setQx 5 1).setQx 6 0 := by
    rw [lightCurtain, if_neg (by simp [hfree])]
  have hcount := mw_conveyor ((d.setQx 5 1).setQx 6 0) hfree
  have hsame := (conveyor_same ((d.setQx 5 1).setQx 6 0)).1
  rw [← hlamps] at hcount hsame
  obtain ⟨d₂, hd₂⟩ : ∃ d₂, conveyor (lightCurtain tick d) = d₂ := ⟨_, rfl⟩
  rw [hd₂] at hcount hsame
  obtain ⟨d₃, hd₃⟩ : ∃ d₃, home (clamp (rotate (lift d₂))) = d₃ := ⟨_, rfl⟩
  have hrest : d₃.vars.qx = d₂.vars.qx ∧ d₃.vars.mw = d₂.vars.mw ∧
      (d₃.vars.ix 3 ≠ 0 ↔ d₃.priv.liftPos ≤ 0.05 ∧ d₃.priv.rotatePos ≤ 0.05) := by
    rw [← hd₃]
    exact ⟨rfl, rfl, sensor_ne_zero⟩
  obtain ⟨hqx, hmw, hhome⟩ := hrest
  obtain ⟨hparts, hpriv, hsensor⟩ := parts_same d₃
  rw [show simulate tick d = parts d₃ by rw [simulate, hd₂, hd₃]]
  refine ⟨?_, ?_, ?_⟩
  · rw [hparts.coils, hqx, hsame.coils, hlamps]
    rfl
  · rw [mw_parts, hmw]
    rw [hlamps] at hcount
    exact hcount
  · rw [hsensor 3 (by decide), hpriv]
    exact hhome

/-! ## The sequence -/

section Sequence

variable {D : Type} [Double D] (d : Line D)

theorem mw_sequence : (sequence d).vars.mw 0 = d.vars.mw 0 := by
  simp only [sequence]
  split <;> repeat' split
  all_goals rfl

/-- The conveyor runs in one state only. -/
def Standing (d : Line D) : Prop := d.priv.sfcState ≠ 8 → d.vars.qx 0 = 0

theorem standing_sequence (h : Standing d) : Standing (sequence d) := by
  have hoff (hstate : d.priv.sfcState ≠ 8) : d.vars.qx 0 = 0 := h hstate
  intro hafter
  simp only [sequence] at hafter ⊢
  split
  · next hstate =>
      simp only [hstate] at hafter
      split
      · next htrigger =>
          rw [if_pos htrigger] at hafter
          exact absurd rfl hafter
      · rfl
  · next hstate =>
      simp only [hstate] at hafter
      split
      · split <;> rfl
      · next hfar =>
          rw [if_neg hfar] at hafter
          exact absurd hstate hafter
  · next hstate => split <;> exact hoff (by omega)
  · next hstate => split <;> exact hoff (by omega)
  · next hstate => split <;> exact hoff (by omega)
  · next hstate => split <;> exact hoff (by omega)
  · next hstate => split <;> exact hoff (by omega)
  · next hstate => split <;> exact hoff (by omega)
  · next hstate => split <;> exact hoff (by omega)
  · next h8 _ _ _ _ _ _ _ => exact hoff h8

theorem state_sequence (h : d.priv.sfcState = 7) :
    (sequence d).priv.sfcState = 0 ↔ d.vars.ix 3 ≠ 0 := by
  simp only [sequence, h]
  show (if _ then _ else _ : Line D).priv.sfcState = 0 ↔ _
  split
  · next hhome => exact iff_of_true rfl hhome
  · next hhome => exact iff_of_false (by simp [h]) hhome

end Sequence

/-- The sequence lets the conveyor run in the first half only. -/
theorem halfway_sequence (d : Line ℚ) (hstate : (sequence d).priv.sfcState = 8)
    (hon : (sequence d).vars.qx 0 ≠ 0) : (sequence d).priv.conveyorPos < 500 := by
  match hbefore : d.priv.sfcState with
  | 0 =>
      simp only [sequence, hbefore] at hstate ⊢
      split
      · show (0.0 : ℚ) < 500
        norm_num
      · next hwait =>
          rw [if_neg hwait] at hstate
          have : d.priv.sfcState = 8 := hstate
          omega
  | 8 =>
      simp only [sequence, hbefore] at hon ⊢
      by_cases hhalf : 500.0 ≤ d.priv.conveyorPos
      · rw [if_pos (by exact hhalf)] at hon
        refine absurd ?_ hon
        split <;> rfl
      · rw [if_neg (by exact hhalf)]
        show d.priv.conveyorPos < 500
        norm_num at hhalf
        exact hhalf
  | 1 | 2 | 3 | 4 | 5 | 6 | 7 =>
      simp only [sequence, hbefore] at hstate
      split at hstate
      · simp [goto] at hstate
      · have hstate : d.priv.sfcState = 8 := hstate
        omega
  | n + 9 =>
      simp only [sequence, hbefore] at hstate
      omega

/-! ## One scan -/

theorem AutoScan.eStop_inputs (s : AutoScan) (d : Line ℚ) : eStop (s.inputs d) = false := by
  show decide (s.curtain ≠ 0) = false
  rw [s.free]
  rfl

theorem apply_eq (d : Line ℚ) (s : AutoScan) :
    s.apply d = sequence (simulate s.tick (s.inputs d)) := by
  have hstop := s.eStop_inputs d
  have hmode := (simulates (s.inputs d) s.tick).mode
  have hon : (s.inputs d).vars.ix 0 = s.auto := rfl
  simp only [Scan.apply, configRun, hstop]
  rw [if_pos ⟨by rw [hmode, hon]; exact s.on, trivial⟩]

/-- A scan counts a chassis or it completes a cycle, and never does both. -/
structure CountStep (d : Line ℚ) (s : AutoScan) (d' : Line ℚ) : Prop where
  count : (d'.vars.mw 0 = d.vars.mw 0 + 1 ∧ Overruns d s.speed) ∨
    (d'.vars.mw 0 = d.vars.mw 0 ∧ ¬ Overruns d s.speed)
  cycle : d.priv.sfcState = 7 ∧ d'.priv.sfcState = 0 ↔ Returns d
  apart : ¬ (Overruns d s.speed ∧ Returns d)
  standing : Standing d'

theorem count_step {d : Line ℚ} (s : AutoScan) (h : Standing d) :
    CountStep d s (s.apply d) := by
  have hfree := s.eStop_inputs d
  have hmoved := simulate_moved (s.inputs d) s.tick hfree
  have hsim := simulates (s.inputs d) s.tick
  rw [apply_eq]
  obtain ⟨m, hm⟩ : ∃ m, simulate s.tick (s.inputs d) = m := ⟨_, rfl⟩
  rw [hm] at hmoved hsim ⊢
  obtain ⟨hcoil, hcount, hhome⟩ := hmoved
  obtain ⟨-, hstate, hlift, hrotate, hliftPos, hrotatePos, -, -⟩ := hsim
  rw [hfree] at hlift hrotate
  have hstate : m.priv.sfcState = d.priv.sfcState := hstate
  have hcoil : m.vars.qx 0 = d.vars.qx 0 := hcoil
  have hlift : m.vars.qx 1 = d.vars.qx 1 := hlift
  have hrotate : m.vars.qx 3 = d.vars.qx 3 := hrotate
  rw [hlift] at hliftPos
  rw [hrotate] at hrotatePos
  refine ⟨?_, ?_, ?_, ?_⟩
  · rw [mw_sequence]
    exact hcount
  · refine and_congr_right fun h7 => ?_
    rw [state_sequence m (hstate.trans h7), hhome, hliftPos, hrotatePos]
    exact Iff.rfl
  · rintro ⟨⟨hon, -⟩, h7, -⟩
    exact hon (h (by omega))
  · refine standing_sequence m fun h8 => ?_
    rw [hcoil]
    exact h (hstate ▸ h8)

/-! ## Runs that count -/

/-- The counter agrees so far, and the conveyor stands outside its state. -/
structure Agrees (r : Line ℚ × Nat) : Prop where
  counted : (r.1.vars.mw 0).toNat = r.2 % 65536
  standing : Standing r.1

theorem counted_iff {r : Line ℚ × Nat} (s : AutoScan) (h : Agrees r) :
    Counted r s ↔ Uneventful r s := by
  obtain ⟨hcount, hcycle, hapart, -⟩ := count_step s h.standing
  have hcounted := h.counted
  have hone : (1 : UInt16).toNat = 1 := rfl
  simp only [Counted, count, Uneventful]
  by_cases hreturns : Returns r.1
  · rw [if_pos (hcycle.mpr hreturns)]
    rcases hcount with ⟨-, hover⟩ | ⟨hkeep, -⟩
    · exact absurd ⟨hover, hreturns⟩ hapart
    · refine iff_of_false ?_ fun hno => hno.2 hreturns
      rw [hkeep]
      omega
  · rw [if_neg fun h => hreturns (hcycle.mp h)]
    rcases hcount with ⟨hup, hover⟩ | ⟨hkeep, hover⟩
    · refine iff_of_false ?_ fun hno => hno.1 hover
      rw [hup, UInt16.toNat_add, hone]
      omega
    · rw [hkeep]
      exact iff_of_true hcounted ⟨hover, hreturns⟩

/-- In a run in AUTO the counter is the number of completed cycles after every
scan, exactly if no scan completes one and none takes the conveyor past its
end. -/
theorem completed_cars_iff (d : Line ℚ) (scans : List AutoScan) :
    Loop.Each count Counted (configInit d, 0) scans ↔
      Loop.Each count Uneventful (configInit d, 0) scans := by
  have hiff (r : Line ℚ × Nat) (s : AutoScan) (h : Agrees r) :
      Counted r s ↔ Uneventful r s := counted_iff s h
  have hkeep (r : Line ℚ × Nat) (s : AutoScan) (h : Agrees r) (hcounted : Counted r s) :
      Agrees (count r s) := ⟨hcounted, (count_step s h.standing).standing⟩
  exact Loop.each_congr hiff hkeep scans ⟨rfl, fun _ => rfl⟩

/-- Up to 25000 mm/s a running conveyor does not come to its end: the sequence
stops it as soon as it is halfway. So the counter stays where it is, however many
cycles are completed. -/
theorem mw_slow {d : Line ℚ} (s s' : AutoScan) (h : Standing d) (hslow : s'.speed ≤ 25000) :
    (s'.apply (s.apply d)).vars.mw 0 = (s.apply d).vars.mw 0 := by
  have hstep := count_step s h
  rcases (count_step s' hstep.standing).count with ⟨-, hon, hend⟩ | ⟨hkeep, -⟩
  · have hhalf := halfway_sequence (simulate s.tick (s.inputs d))
    rw [← apply_eq] at hhalf
    have hpos := hhalf (by_contra fun hne => hon (hstep.standing hne)) hon
    have hspeed : s'.speed.toNat ≤ 25000 := UInt16.le_iff_toNat_le.mp hslow
    have hspeed : (s'.speed.toNat : ℚ) ≤ 25000 := by exact_mod_cast hspeed
    norm_num at hend
    linarith
  · exact hkeep

/-- A chassis is sent in at full speed. -/
def fullSpeed (chassis : UInt16) : AutoScan :=
  { tick := 0, auto := 1, curtain := 0, speed := 65535, chassis := chassis, part := 0
    on := (by decide : (1 : UInt8) ≠ 0), free := rfl }

/-- It counts as completed before it has seen the robot. -/
theorem completed_cars_miscounted :
    ¬ ∀ (d : Line ℚ) (scans : List AutoScan),
      Loop.Each count Counted (configInit d, 0) scans := by
  intro h
  have hcounted := (h assemblyLine [fullSpeed 1, fullSpeed 0]).2.1
  revert hcounted
  rw [Counted]
  decide +kernel

end Assembly

end VPlc
