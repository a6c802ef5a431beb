import Mathlib.Tactic.Linarith
import Mathlib.Tactic.NormNum
import VPlc.Proofs.ScanProgress
import VPlc.Proofs.TrimConveyor
import VPlc.Proofs.TrimStop

/-!
# No vehicle leaves the first station

A hanger that is told to move off a station takes three millimetres of a window
of ten, and is put back. At the first station this is the end of the line: once
there, the conveyor stays, and whatever the mode, the coils and the registers
are, stations 2 to 4 never see a vehicle. So of the nine states of the sequence
four are dead, the gluing, the seats, the quality gate and the finish, and the
production counters are never written (`trim_first_station`).

The invariant is on the library alone (`AtFirst`). Nothing that a sync brings in
can break it, so it holds whatever the clients write and whichever mapping rules
there are.
-/

namespace VPlc

namespace Trim

open PlcScheduler

/-- The conveyor is not past the first station, the others see nothing, and the
sequence has not come to a state that needs them to. -/
structure AtFirst (d : Line ℚ) : Prop where
  pos : d.priv.conveyorPos ≤ 200
  second : d.vars.ix 2 = 0
  third : d.vars.ix 3 = 0
  fourth : d.vars.ix 4 = 0
  state : d.priv.trimSfcState ∈ [0, 1, 2, 3, 5]

namespace AtFirst

variable {d : Line ℚ}

theorem configInit (d : Line ℚ) : AtFirst (configInit d) := by
  refine ⟨?_, by simp [Trim.configInit], by simp [Trim.configInit], by simp [Trim.configInit],
    by simp [Trim.configInit]⟩
  show (0.0 : ℚ) ≤ 200
  norm_num

theorem congr {d' : Line ℚ} (h : AtFirst d) (hpriv : d'.priv = d.priv)
    (hix : ∀ k, k ≠ 0 → k ≠ 7 → d'.vars.ix k = d.vars.ix k) : AtFirst d' where
  pos := hpriv ▸ h.pos
  second := (hix 2 (by decide) (by decide)).trans h.second
  third := (hix 3 (by decide) (by decide)).trans h.third
  fourth := (hix 4 (by decide) (by decide)).trans h.fourth
  state := hpriv ▸ h.state

/-! ## The conveyor -/

/-- Three millimetres from the station or before are still in its window. -/
theorem approach2_le (h : AtFirst d) : approach2 d ≤ 200 := by
  have hadv : approach1 d = d.priv.conveyorPos + 3 := by
    rcases advance_cases d.priv.conveyorPos with ⟨-, hadv⟩ | ⟨hwrap, -⟩
    · exact hadv
    · linarith [h.pos]
  unfold approach2 halt
  rw [hadv]
  norm_num
  split
  · exact le_refl 200
  · next hout =>
      have hpos := h.pos
      by_contra hfar
      exact hout ⟨by linarith, by linarith⟩

theorem approach3_eq (h : AtFirst d) : approach3 d = approach2 d := by
  have hle := h.approach2_le
  unfold approach3
  split
  · exact halt_of_lt (by norm_num; linarith)
  · rfl

theorem approach4_eq (h : AtFirst d) : approach4 d = approach2 d := by
  have hle := h.approach2_le
  rw [approach4, h.approach3_eq]
  exact halt_of_lt (by norm_num; linarith)

theorem conveyor (h : AtFirst d) : AtFirst (conveyor d) := by
  have hle := h.approach2_le
  have hblind (k : UInt16) (hk : k = 2 ∨ k = 3 ∨ k = 4) (hbefore : d.vars.ix k = 0) :
      (Trim.conveyor d).vars.ix k = 0 := by
    by_contra hsees
    have harrives := (ix_conveyor d (by tauto)).mp hsees
    unfold Arrives at harrives
    split at harrives
    · -- a vehicle that stations 2 to 4 see has come to 450 at least
      unfold Sees at harrives
      rw [h.approach3_eq, h.approach4_eq] at harrives
      norm_num [Within] at harrives
      rcases harrives with ⟨rfl, -⟩ | ⟨-, -, hfar, -⟩ | ⟨-, hfar, -⟩ | ⟨-, hfar, -⟩
      · rcases hk with hk | hk | hk <;> cases hk
      · linarith
      · linarith
      · linarith
    · exact harrives hbefore
  refine ⟨?_, hblind 2 (by simp) h.second, hblind 3 (by simp) h.third,
    hblind 4 (by simp) h.fourth, ?_⟩
  · rw [conveyorPos_conveyor]
    split
    · rw [h.approach4_eq, halt_of_lt (by norm_num; linarith)]
      exact hle
    · exact h.pos
  · rw [(SameCommands.refl d).conveyor.state]
    exact h.state

/-! ## The other layers -/

theorem simulate (h : AtFirst d) (tick : UInt64) : AtFirst (simulate tick d) where
  pos := by
    rw [conveyorPos_simulate]
    exact h.conveyor.pos
  second := by
    rw [ix_simulate tick d (by decide) (by decide)]
    exact h.conveyor.second
  third := by
    rw [ix_simulate tick d (by decide) (by decide)]
    exact h.conveyor.third
  fourth := by
    rw [ix_simulate tick d (by decide) (by decide)]
    exact h.conveyor.fourth
  state := by
    rw [((SameCommands.refl d).simulate tick).state]
    exact h.state

theorem lamps (h : AtFirst d) (tick : UInt64) : AtFirst (lamps tick d) := by
  obtain ⟨flash, hflash⟩ := priv_lamps tick d
  have hix : (Trim.lamps tick d).vars.ix = d.vars.ix := by
    simp only [Trim.lamps]
    split <;> split <;> rfl
  refine ⟨?_, ?_, ?_, ?_, ?_⟩
  · rw [hflash]
    exact h.pos
  · rw [hix]
    exact h.second
  · rw [hix]
    exact h.third
  · rw [hix]
    exact h.fourth
  · rw [hflash]
    exact h.state

/-- From these states the sequence goes to none of the others, and it counts
nothing. -/
theorem sequence (h : AtFirst d) (tick : UInt64) :
    AtFirst (sequence tick d) ∧ (sequence tick d).vars.mw = d.vars.mw := by
  have hstays {d' : Line ℚ} (hpos : d'.priv.conveyorPos = d.priv.conveyorPos)
      (hix : d'.vars.ix = d.vars.ix) (hmw : d'.vars.mw = d.vars.mw)
      (hstate : d'.priv.trimSfcState ∈ [0, 1, 2, 3, 5]) :
      AtFirst d' ∧ d'.vars.mw = d.vars.mw :=
    ⟨⟨hpos ▸ h.pos, hix ▸ h.second, hix ▸ h.third, hix ▸ h.fourth, hstate⟩, hmw⟩
  have hstate := h.state
  simp only [Trim.sequence]
  split
  · split
    · exact hstays rfl rfl rfl (by simp)
    · exact hstays rfl rfl rfl hstate
  · split
    · exact hstays rfl rfl rfl (by simp)
    · exact hstays rfl rfl rfl hstate
  · split
    · exact hstays rfl rfl rfl (by simp)
    · exact hstays rfl rfl rfl hstate
  · split
    · next hsecond => exact absurd h.second hsecond
    · split
      · exact hstays rfl rfl rfl (by simp)
      · exact hstays rfl rfl rfl hstate
  · next h4 => rw [h4] at hstate; simp at hstate
  · split
    · next hthird => exact absurd h.third hthird
    · exact hstays rfl rfl rfl hstate
  · next h6 => rw [h6] at hstate; simp at hstate
  · next h7 => rw [h7] at hstate; simp at hstate
  · next h8 => rw [h8] at hstate; simp at hstate
  · exact hstays rfl rfl rfl hstate

theorem configRun (h : AtFirst d) (tick : UInt64) :
    AtFirst (configRun tick d) ∧ (configRun tick d).vars.mw = d.vars.mw := by
  have hsame := ((SameCommands.refl d).lamps tick).simulate tick
  have hmachine := (h.lamps tick).simulate tick
  obtain ⟨m, hm⟩ : ∃ m, Trim.simulate tick (Trim.lamps tick d) = m := ⟨_, rfl⟩
  simp only [Trim.configRun, hm]
  rw [hm] at hsame hmachine
  split
  · exact ⟨h.congr rfl fun _ _ _ => rfl, rfl⟩
  · split
    · obtain ⟨hfirst, hmw⟩ := hmachine.sequence tick
      exact ⟨hfirst, hmw.trans hsame.registers⟩
    · refine ⟨⟨hmachine.pos, hmachine.second, hmachine.third, hmachine.fourth, ?_⟩,
        hsame.registers⟩
      exact List.mem_cons_self

end AtFirst

/-! ## The plant -/

theorem scans_atFirst : Scans (loader (D := ℚ)) (fun _ => True) AtFirst AtFirst where
  inputs {d m} h _ :=
    h.congr (priv_pulled loader m d) fun _ h0 h7 => pulled_sensor loader m d h0 h7
  logic tick h := by
    rw [runLogic_loader]
    exact (h.configRun tick).1

/-- With the trim logic loaded, whatever the memory and its mapping rules, and
whatever clients write: the conveyor never gets past the first station, stations
2 to 4 never see a vehicle, the sequence never comes to its states 4, 6, 7 and 8,
and no call of the logic changes a register, so that nothing is ever counted. -/
theorem trim_first_station (m : PlcMemory) (d : Line ℚ) (es : List Event) :
    AtFirst (run loader (start loader m d) es).dll ∧
      ∀ tick, (loader.runLogic tick (run loader (start loader m d) es).dll).vars.mw =
        (run loader (start loader m d) es).dll.vars.mw := by
  have hinit : AtFirst (loader.initLogic d) := by
    rw [initLogic_loader]
    exact .configInit d
  have hrun : AtFirst (run loader (start loader m d) es).dll :=
    (scans_atFirst.plantAfter hinit m es).always
  refine ⟨hrun, fun tick => ?_⟩
  rw [runLogic_loader]
  exact (hrun.configRun tick).2

end Trim

end VPlc
