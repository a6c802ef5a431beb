import Mathlib.Tactic.IntervalCases
import Mathlib.Tactic.Linarith
import Mathlib.Tactic.NormNum
import VPlc.Proofs.AssemblyCount
import VPlc.Proofs.AssemblyStop
import VPlc.Proofs.ScanProgress

/-!
# A cycle that is begun is completed

In AUTO, with the curtain free, every state of the sequence but the first waits
for a cylinder or for the conveyor, and drives what it waits for. So each has a
bound on the scans it takes: `remaining` counts them down, and every scan lowers
it (`remaining_configRun`). It needs the conveyor to be no faster than its window
can catch, and no slower than `v`.

That the arm is home when the first state waits for a part is part of the
invariant: the sequence has cleared the coils of the arm before it starts the
conveyor, and in MANUAL, where a client may set them again, it goes back to its
beginning (`Conveying`).
-/

namespace VPlc

namespace Assembly

open PlcScheduler

/-! ## Cylinders -/

section Cylinders

variable {step b pos : ℚ} {coil : UInt8}

/-- The scans until a cylinder is at `b` or below, if its coil is cleared. -/
def scansBack (step b : ℚ) (coil : UInt8) (pos : ℚ) : Nat :=
  if coil = 0 then Loop.strides step (pos - b) else Loop.strides step (1 - b) + 1

/-- The scans until it is at `b` or above, if its coil is set. -/
def scansOut (step b : ℚ) (coil : UInt8) (pos : ℚ) : Nat :=
  if coil = 0 then Loop.strides step b + 1 else Loop.strides step (b - pos)

theorem travel_nonneg (out : Bool) : 0 ≤ travel step out pos := by
  rw [travel_eq]
  exact le_min zero_le_one (le_max_left _ _)

theorem scansBack_travel (hstep : 0 < step) (hb : 0 ≤ b) :
    scansBack step b 0 (travel step (decide (coil ≠ 0)) pos) ≤
      scansBack step b coil pos - 1 := by
  rw [scansBack, scansBack, if_pos rfl]
  by_cases hcoil : coil = 0
  · rw [if_pos hcoil, decide_eq_false (not_not.mpr hcoil), travel_eq,
      if_neg Bool.false_ne_true]
    rcases le_total (pos - step) 0 with hend | hfar
    · rw [max_eq_left hend, min_eq_right zero_le_one,
        (Loop.strides_eq_zero hstep).mpr (by linarith)]
      exact Nat.zero_le _
    · rw [max_eq_right hfar]
      refine Loop.strides_le_sub_one hstep ?_
      have hle : min 1 (pos - step) ≤ pos - step := min_le_right _ _
      linarith
  · rw [if_neg hcoil, Nat.add_sub_cancel]
    refine Loop.strides_mono hstep ?_
    have hle : travel step (decide (coil ≠ 0)) pos ≤ 1 := travel_le _
    linarith

theorem scansOut_travel (hstep : 0 < step) (hb : b ≤ 1) {coil' : UInt8} (hon : coil' ≠ 0) :
    scansOut step b coil' (travel step (decide (coil ≠ 0)) pos) ≤
      scansOut step b coil pos - 1 := by
  rw [scansOut, scansOut, if_neg hon]
  by_cases hcoil : coil = 0
  · rw [if_pos hcoil, Nat.add_sub_cancel]
    refine Loop.strides_mono hstep ?_
    have hle : 0 ≤ travel step (decide (coil ≠ 0)) pos := travel_nonneg _
    linarith
  · rw [if_neg hcoil, decide_eq_true hcoil, travel_eq, if_pos rfl]
    rcases le_total 1 (max 0 (pos + step)) with hend | hfar
    · rw [min_eq_left hend, (Loop.strides_eq_zero hstep).mpr (by linarith)]
      exact Nat.zero_le _
    · rw [min_eq_right hfar]
      refine Loop.strides_le_sub_one hstep ?_
      have hle : pos + step ≤ max 0 (pos + step) := le_max_right _ _
      linarith

theorem scansBack_eq_zero (hstep : 0 < step) : scansBack step b 0 pos = 0 ↔ pos ≤ b := by
  rw [scansBack, if_pos rfl, Loop.strides_eq_zero hstep, sub_nonpos]

theorem scansOut_eq_zero (hstep : 0 < step) (hon : coil ≠ 0) :
    scansOut step b coil pos = 0 ↔ b ≤ pos := by
  rw [scansOut, if_neg hon, Loop.strides_eq_zero hstep, sub_nonpos]

theorem scansBack_le (hstep : 0 < step) (hpos : pos ≤ 1) :
    scansBack step b coil pos ≤ Loop.strides step (1 - b) + 1 := by
  rw [scansBack]
  split
  · have hmono := Loop.strides_mono hstep (sub_le_sub_right hpos b)
    omega
  · exact le_refl _

theorem scansOut_le (hstep : 0 < step) (hpos : 0 ≤ pos) :
    scansOut step b coil pos ≤ Loop.strides step b + 1 := by
  rw [scansOut]
  split
  · exact le_refl _
  · have hmono : Loop.strides step (b - pos) ≤ Loop.strides step b :=
      Loop.strides_mono hstep (by linarith)
    omega

end Cylinders

/-! ## The machine -/

/-- The conveyor after a tick at `speed`. -/
def transported (pos : ℚ) (speed : UInt16) : ℚ :=
  let pos := pos + speed.toNat * 0.02
  let pos := if 500 ≤ pos ∧ pos < 520 then 500 else pos
  if 1000 ≤ pos then 0 else pos

theorem conveyorPos_transport (d : Line ℚ) :
    (transport d).priv.conveyorPos = transported d.priv.conveyorPos (d.vars.mw 1) := by
  obtain ⟨pos, hpos⟩ : ∃ pos : ℚ,
      d.priv.conveyorPos + Double.ofUInt64 (d.vars.mw 1).toUInt64 * 0.02 = pos := ⟨_, rfl⟩
  have hsum : d.priv.conveyorPos + (d.vars.mw 1).toNat * 0.02 = pos := hpos
  simp only [transport, transported, hpos, hsum]
  norm_num
  by_cases hstation : 500 ≤ pos ∧ pos < 520
  · rw [if_pos hstation, if_pos hstation]
    norm_num [moveTo]
  · rw [if_neg hstation, if_neg hstation]
    by_cases hend : 1000 ≤ pos
    · rw [if_pos (by exact hend), if_pos hend]
      rfl
    · rw [if_neg (by exact hend), if_neg hend]
      rfl

theorem transported_nonneg {pos : ℚ} (h : 0 ≤ pos) (speed : UInt16) :
    0 ≤ transported pos speed := by
  have hmove : (0 : ℚ) ≤ speed.toNat * 0.02 :=
    mul_nonneg (Nat.cast_nonneg _) (by norm_num)
  simp only [transported]
  split
  · norm_num
  · split
    · exact le_refl 0
    · linarith

/-- Slow enough for the window, the conveyor advances or it is at the station or
beyond. -/
theorem transported_slow {pos : ℚ} (h : pos < 500) {speed : UInt16}
    (hslow : speed.toNat ≤ 25000) :
    500 ≤ transported pos speed ∨ transported pos speed = pos + speed.toNat * 0.02 := by
  have hspeed : (speed.toNat : ℚ) ≤ 25000 := by exact_mod_cast hslow
  simp only [transported]
  split
  · left
    norm_num
  · rw [if_neg (by linarith)]
    exact .inr rfl

/-- The machine, in all that the sequence waits for. -/
structure Turned (d m : Line ℚ) : Prop where
  state : m.priv.sfcState = d.priv.sfcState
  mode : m.vars.ix 0 = d.vars.ix 0
  coils : ∀ k : UInt16, k = 0 ∨ k = 1 ∨ k = 3 →
    m.vars.qx k = if eStop d then 0 else d.vars.qx k
  clampCoil : m.vars.qx 2 = d.vars.qx 2
  lift : m.priv.liftPos = travel 0.04 (decide (m.vars.qx 1 ≠ 0)) d.priv.liftPos
  rotate : m.priv.rotatePos = travel 0.033 (decide (m.vars.qx 3 ≠ 0)) d.priv.rotatePos
  clamp : m.priv.clampPos = travel 0.1 (decide (d.vars.qx 2 ≠ 0)) d.priv.clampPos
  conveyor : m.priv.conveyorPos =
    if d.vars.qx 0 ≠ 0 ∧ eStop d = false then transported d.priv.conveyorPos (d.vars.mw 1)
    else d.priv.conveyorPos
  down : m.vars.ix 6 ≠ 0 ↔ 0.95 ≤ m.priv.liftPos
  right : m.vars.ix 5 ≠ 0 ↔ 0.95 ≤ m.priv.rotatePos
  clamped : m.vars.ix 4 ≠ 0 ↔ 0.95 ≤ m.priv.clampPos
  home : m.vars.ix 3 ≠ 0 ↔ m.priv.liftPos ≤ 0.05 ∧ m.priv.rotatePos ≤ 0.05
  part : m.vars.ix 3 ≠ 0 → m.vars.qx 2 = 0 → m.vars.ix 2 ≠ 0

theorem simulate_turned (d : Line ℚ) (tick : UInt64) : Turned d (simulate tick d) := by
  obtain ⟨hmode, hstate, hliftCoil, hrotateCoil, hlift, hrotate, hdown, hright⟩ :=
    simulates d tick
  obtain ⟨d₁, hd₁⟩ : ∃ d₁, lightCurtain tick d = d₁ := ⟨_, rfl⟩
  have hcurtain : d₁.vars.ix 7 = d.vars.ix 7 ∧ d₁.priv.clampPos = d.priv.clampPos ∧
      d₁.priv.conveyorPos = d.priv.conveyorPos ∧ d₁.vars.mw = d.vars.mw ∧
      d₁.vars.qx 2 = d.vars.qx 2 ∧ d₁.vars.qx 0 = if eStop d then 0 else d.vars.qx 0 := by
    rw [← hd₁, lightCurtain]
    split <;> exact ⟨rfl, rfl, rfl, rfl, rfl, rfl⟩
  obtain ⟨hix, hclamp₁, hpos₁, hmw₁, hqx2, hqx0⟩ := hcurtain
  have hstop : eStop d₁ = eStop d := by rw [eStop, hix, eStop]
  obtain ⟨hcmd₂, harm₂⟩ := conveyor_same d₁
  have hpos₂ : (conveyor d₁).priv.conveyorPos =
      if d.vars.qx 0 ≠ 0 ∧ eStop d = false then transported d.priv.conveyorPos (d.vars.mw 1)
      else d.priv.conveyorPos := by
    rw [Assembly.conveyor, hstop]
    show (if _ then transport d₁ else d₁ : Line ℚ).priv.conveyorPos = _
    by_cases hruns : d.vars.qx 0 ≠ 0 ∧ eStop d = false
    · rw [if_pos ⟨by rw [hqx0, hruns.2]; exact hruns.1, hruns.2⟩, if_pos hruns,
        conveyorPos_transport, hpos₁, hmw₁]
    · have hstands : ¬ (d₁.vars.qx 0 ≠ 0 ∧ eStop d = false) := by
        rintro ⟨hon, hfree⟩
        rw [hqx0, hfree] at hon
        exact hruns ⟨hon, hfree⟩
      rw [if_neg hstands, if_neg hruns, hpos₁]
  obtain ⟨d₂, hd₂⟩ : ∃ d₂, Assembly.conveyor d₁ = d₂ := ⟨_, rfl⟩
  rw [hd₂] at hcmd₂ harm₂ hpos₂
  obtain ⟨d₃, hd₃⟩ :
      ∃ d₃, Assembly.home (Assembly.clamp (Assembly.rotate (Assembly.lift d₂))) = d₃ := ⟨_, rfl⟩
  have hdevices : d₃.vars.qx = d₂.vars.qx ∧ d₃.priv.conveyorPos = d₂.priv.conveyorPos ∧
      d₃.priv.clampPos = travel 0.1 (decide (d₂.vars.qx 2 ≠ 0)) d₂.priv.clampPos ∧
      d₃.vars.ix 4 = limit d₃.priv.clampPos ∧
      (d₃.vars.ix 3 ≠ 0 ↔ d₃.priv.liftPos ≤ 0.05 ∧ d₃.priv.rotatePos ≤ 0.05) := by
    rw [← hd₃]
    exact ⟨rfl, rfl, rfl, rfl, sensor_ne_zero⟩
  obtain ⟨hqx₃, hpos₃, hclamp₃, hclamped₃, hhome₃⟩ := hdevices
  obtain ⟨hsame, hpriv, hsensor⟩ := parts_same d₃
  have hall : simulate tick d = parts d₃ := by rw [simulate, hd₁, hd₂, hd₃]
  rw [hall] at hmode hstate hliftCoil hrotateCoil hlift hrotate hdown hright ⊢
  have hcoils : (parts d₃).vars.qx = d₁.vars.qx := by rw [hsame.coils, hqx₃, hcmd₂.coils]
  refine ⟨hstate, hmode, ?_, ?_, hlift, hrotate, ?_, ?_, ?_, ?_, ?_, ?_, ?_⟩
  · rintro k (rfl | rfl | rfl)
    · rw [hcoils, hqx0]
    · exact hliftCoil
    · exact hrotateCoil
  · rw [hcoils, hqx2]
  · rw [hpriv, hclamp₃, hcmd₂.coils, hqx2, harm₂.clamp, hclamp₁]
  · rw [hpriv, hpos₃, hpos₂]
  · rw [hdown]
    exact sensor_ne_zero
  · rw [hright]
    exact sensor_ne_zero
  · rw [hsensor 4 (by decide), hclamped₃, hpriv]
    exact sensor_ne_zero
  · rw [hsensor 3 (by decide), hpriv, hhome₃]
  · intro hhome hopen
    rw [hsensor 3 (by decide)] at hhome
    rw [hsame.coils] at hopen
    rw [parts, if_pos (.inl ⟨hhome, hopen⟩)]
    show (1 : UInt8) ≠ 0
    decide

/-! ## What every run keeps -/

/-- The cylinders are between their ends, the conveyor has a position, and the
sequence is in one of its states. -/
structure Sound (d : Line ℚ) : Prop where
  lift : 0 ≤ d.priv.liftPos ∧ d.priv.liftPos ≤ 1
  rotate : 0 ≤ d.priv.rotatePos ∧ d.priv.rotatePos ≤ 1
  clamp : 0 ≤ d.priv.clampPos ∧ d.priv.clampPos ≤ 1
  pos : 0 ≤ d.priv.conveyorPos
  state : d.priv.sfcState ≤ 8

/-- While a chassis is brought in, nothing drives the arm, and the conveyor runs
short of the station only. -/
def Conveying (d : Line ℚ) : Prop :=
  d.priv.sfcState = 8 → (d.vars.qx 1 = 0 ∧ d.vars.qx 2 = 0 ∧ d.vars.qx 3 = 0) ∧
    d.priv.conveyorPos ≤ 500 ∧ (d.vars.qx 0 ≠ 0 → d.priv.conveyorPos < 500)

theorem sequence_arm (d : Line ℚ) : SameArm d (sequence d) := by
  simp only [sequence]
  split <;> repeat' split
  all_goals exact ⟨rfl, rfl, rfl⟩

theorem Sound.sequence {d : Line ℚ} (h : Sound d) : Sound (sequence d) := by
  obtain ⟨hlift, hrotate, hclamp⟩ := sequence_arm d
  have hrest : 0 ≤ (Assembly.sequence d).priv.conveyorPos ∧
      (Assembly.sequence d).priv.sfcState ≤ 8 := by
    have hpos := h.pos
    have hstate := h.state
    have hends : (0 : ℚ) ≤ 0.0 ∧ (0 : ℚ) ≤ 500.0 ∧ (0 : ℚ) ≤ 525.0 := by norm_num
    simp only [Assembly.sequence]
    split <;> repeat' split
    all_goals exact ⟨by first | exact hpos | exact hends.1 | exact hends.2.1 | exact hends.2.2,
      by first | exact hstate | exact Nat.le_of_ble_eq_true rfl⟩
  exact ⟨hlift ▸ h.lift, hrotate ▸ h.rotate, hclamp ▸ h.clamp, hrest.1, hrest.2⟩

theorem Turned.sound {d m : Line ℚ} (h : Turned d m) (hd : Sound d) : Sound m := by
  refine ⟨?_, ?_, ?_, ?_, h.state ▸ hd.state⟩
  · rw [h.lift]
    exact ⟨travel_nonneg _, travel_le _⟩
  · rw [h.rotate]
    exact ⟨travel_nonneg _, travel_le _⟩
  · rw [h.clamp]
    exact ⟨travel_nonneg _, travel_le _⟩
  · rw [h.conveyor]
    split
    · exact transported_nonneg hd.pos _
    · exact hd.pos

theorem conveying_sequence {d : Line ℚ}
    (h : d.priv.sfcState = 8 → d.vars.qx 1 = 0 ∧ d.vars.qx 2 = 0 ∧ d.vars.qx 3 = 0) :
    Conveying (sequence d) := by
  match hstate : d.priv.sfcState with
  | 0 =>
      intro hnext
      simp only [sequence, hstate] at hnext ⊢
      split
      · refine ⟨⟨rfl, rfl, rfl⟩, ?_, fun _ => ?_⟩
        · show (0.0 : ℚ) ≤ 500
          norm_num
        · show (0.0 : ℚ) < 500
          norm_num
      · next hwait =>
          rw [if_neg hwait] at hnext
          have : d.priv.sfcState = 8 := hnext
          omega
  | 8 =>
      intro hnext
      have hcoils := h hstate
      have hstation : (500.0 : ℚ) ≤ 500 := by norm_num
      simp only [sequence, hstate]
      by_cases hhalf : 500.0 ≤ d.priv.conveyorPos
      · rw [if_pos (by exact hhalf)]
        split
        · exact ⟨hcoils, hstation, fun hon => absurd rfl hon⟩
        · exact ⟨hcoils, hstation, fun hon => absurd rfl hon⟩
      · rw [if_neg (by exact hhalf)]
        have hshort : d.priv.conveyorPos < 500 := by
          norm_num at hhalf
          exact hhalf
        exact ⟨hcoils, hshort.le, fun _ => hshort⟩
  | 1 | 2 | 3 | 4 | 5 | 6 | 7 =>
      intro hnext
      simp only [sequence, hstate] at hnext
      split at hnext
      · simp [goto] at hnext
      · have hnext : d.priv.sfcState = 8 := hnext
        omega
  | n + 9 =>
      intro hnext
      simp only [sequence, hstate] at hnext
      omega

/-- A call, in any mode and with the curtain free or not. -/
theorem configRun_keeps {d : Line ℚ} (h : Sound d) (hconv : d.vars.ix 0 ≠ 0 → Conveying d)
    (tick : UInt64) : Sound (configRun tick d) ∧ Conveying (configRun tick d) := by
  have hturned := simulate_turned d tick
  obtain ⟨m, hm⟩ : ∃ m, simulate tick d = m := ⟨_, rfl⟩
  simp only [configRun, hm]
  rw [hm] at hturned
  have hsound := hturned.sound h
  rw [hturned.mode]
  split
  · next hauto =>
      obtain ⟨hauto, hfree⟩ := hauto
      refine ⟨hsound.sequence, conveying_sequence fun h8 => ?_⟩
      rw [hturned.state] at h8
      obtain ⟨⟨h1, h2, h3⟩, -⟩ := hconv hauto h8
      rw [hturned.coils 1 (by simp), hturned.coils 3 (by simp), hturned.clampCoil, hfree]
      exact ⟨h1, h2, h3⟩
  · split
    · exact ⟨⟨hsound.lift, hsound.rotate, hsound.clamp, hsound.pos, Nat.zero_le 8⟩,
        fun (h8 : (0 : Nat) = 8) => absurd h8 (by decide)⟩
    · next hstopped hauto =>
        have hstop : eStop d = true := by
          by_contra hfree
          exact hstopped ⟨hauto, Bool.eq_false_of_not_eq_true hfree⟩
        refine ⟨hsound, fun h8 => ?_⟩
        rw [hturned.state] at h8
        obtain ⟨⟨-, h2, -⟩, hpos, -⟩ := hconv hauto h8
        have hstands : ¬ (d.vars.qx 0 ≠ 0 ∧ true = false) := by simp
        rw [hturned.coils 0 (by simp), hturned.coils 1 (by simp), hturned.coils 3 (by simp),
          hturned.clampCoil, hturned.conveyor, hstop, if_neg hstands]
        exact ⟨⟨rfl, h2, rfl⟩, hpos, fun hon => absurd rfl hon⟩

/-! ## What is left of the cycle -/

/-- The scans until the conveyor is at the station, if it advances by `v` at
least. -/
def approach (v : Nat) (d : Line ℚ) : Nat :=
  Loop.strides ((v : ℚ) * 0.02) (500 - d.priv.conveyorPos) +
    if d.priv.conveyorPos < 500 ∧ d.vars.qx 0 = 0 then 1 else 0

/-- The scans that the present state still waits. -/
def waiting (v : Nat) (d : Line ℚ) : Nat :=
  match d.priv.sfcState with
  | 8 =>
      max (approach v d) (max (scansBack 0.04 0.05 (d.vars.qx 1) d.priv.liftPos)
        (scansBack 0.033 0.05 (d.vars.qx 3) d.priv.rotatePos))
  | 1 | 5 => scansOut 0.04 0.95 (d.vars.qx 1) d.priv.liftPos
  | 2 => scansOut 0.1 0.95 (d.vars.qx 2) d.priv.clampPos
  | 3 => scansBack 0.04 0.05 (d.vars.qx 1) d.priv.liftPos
  | 4 => scansOut 0.033 0.95 (d.vars.qx 3) d.priv.rotatePos
  | 6 => scansBack 0.1 0.05 (d.vars.qx 2) d.priv.clampPos
  | 7 =>
      max (scansBack 0.04 0.05 (d.vars.qx 1) d.priv.liftPos)
        (scansBack 0.033 0.05 (d.vars.qx 3) d.priv.rotatePos)
  | _ => 0

/-- The state that follows. -/
def next : Nat → Nat
  | 8 => 1
  | 1 => 2
  | 2 => 3
  | 3 => 4
  | 4 => 5
  | 5 => 6
  | 6 => 7
  | _ => 0

/-- The scans that the states after this one take at most. -/
def beyond : Nat → Nat
  | 8 => 157
  | 1 => 132
  | 2 => 121
  | 3 => 96
  | 4 => 66
  | 5 => 41
  | 6 => 30
  | _ => 0

/-- The scans until the cycle is completed. -/
def remaining (v : Nat) (d : Line ℚ) : Nat :=
  max 1 (waiting v d) + beyond d.priv.sfcState

theorem cylinder_le {step pos : ℚ} (coil : UInt8) (hstep : 0 < step)
    (hpos : 0 ≤ pos ∧ pos ≤ 1) {n : Nat} (hn : Loop.strides step 0.95 = n) :
    scansOut step 0.95 coil pos ≤ n + 1 ∧ scansBack step 0.05 coil pos ≤ n + 1 := by
  have hlength : (1 : ℚ) - 0.05 = 0.95 := by norm_num
  have hback : scansBack step 0.05 coil pos ≤ Loop.strides step (1 - 0.05) + 1 :=
    scansBack_le hstep hpos.2
  rw [hlength] at hback
  rw [← hn]
  exact ⟨scansOut_le hstep hpos.1, hback⟩

theorem arm_le {d : Line ℚ} (h : Sound d) (lift rotate clamp : UInt8) :
    (scansOut 0.04 0.95 lift d.priv.liftPos ≤ 25 ∧
        scansBack 0.04 0.05 lift d.priv.liftPos ≤ 25) ∧
      (scansOut 0.033 0.95 rotate d.priv.rotatePos ≤ 30 ∧
        scansBack 0.033 0.05 rotate d.priv.rotatePos ≤ 30) ∧
      scansOut 0.1 0.95 clamp d.priv.clampPos ≤ 11 ∧
        scansBack 0.1 0.05 clamp d.priv.clampPos ≤ 11 := by
  have hstrides : Loop.strides (0.04 : ℚ) 0.95 = 24 ∧ Loop.strides (0.033 : ℚ) 0.95 = 29 ∧
      Loop.strides (0.1 : ℚ) 0.95 = 10 := by
    simp only [Loop.strides, Nat.ceil_eq_iff (by decide : (24 : Nat) ≠ 0),
      Nat.ceil_eq_iff (by decide : (29 : Nat) ≠ 0), Nat.ceil_eq_iff (by decide : (10 : Nat) ≠ 0)]
    norm_num
  obtain ⟨hlift, hrotate, hclamp⟩ := hstrides
  exact ⟨cylinder_le lift (by norm_num) h.lift hlift,
    cylinder_le rotate (by norm_num) h.rotate hrotate,
    cylinder_le clamp (by norm_num) h.clamp hclamp⟩

/-- A state that has just been entered waits no longer than was set aside. -/
theorem remaining_le {d : Line ℚ} (h : Sound d) (v : Nat) {k : Nat}
    (hk : k ∈ [8, 1, 2, 3, 4, 5, 6]) (hstate : d.priv.sfcState = next k) :
    remaining v d ≤ beyond k := by
  obtain ⟨hlift, hrotate, hclamp⟩ := arm_le h (d.vars.qx 1) (d.vars.qx 3) (d.vars.qx 2)
  simp only [List.mem_cons, List.not_mem_nil, or_false] at hk
  rcases hk with rfl | rfl | rfl | rfl | rfl | rfl | rfl <;>
    simp only [remaining, waiting, hstate, next, beyond] <;> omega

/-- What a scan of a cycle is called on: in AUTO, with the curtain free and the
conveyor at a speed that brings it to the station. -/
structure Working (v : Nat) (d : Line ℚ) : Prop where
  auto : d.vars.ix 0 ≠ 0
  free : d.vars.ix 7 = 0
  fast : v ≤ (d.vars.mw 1).toNat
  slow : (d.vars.mw 1).toNat ≤ 25000

/-- A state waits on, and not for as long as before, or the sequence proceeds. -/
def Proceeds (v : Nat) (d d' : Line ℚ) : Prop :=
  (d'.priv.sfcState = d.priv.sfcState ∧ waiting v d' ≠ 0 ∧ waiting v d' ≤ waiting v d - 1) ∨
    d'.priv.sfcState = next d.priv.sfcState

theorem Proceeds.of_wait {v : Nat} {d d' : Line ℚ} {k : Nat} (ready : Prop)
    (hk : d.priv.sfcState = k) (hgo : ready → d'.priv.sfcState = next k)
    (hstay : ¬ ready → d'.priv.sfcState = k ∧ waiting v d' ≠ 0 ∧
      waiting v d' ≤ waiting v d - 1) : Proceeds v d d' := by
  by_cases hready : ready
  · exact .inr (hk ▸ hgo hready)
  · exact .inl (hk ▸ hstay hready)

section OneScan

variable {v : Nat} {d m : Line ℚ}

theorem Turned.coil_eq (h : Turned d m) (hfree : eStop d = false) {k : UInt16}
    (hk : k = 0 ∨ k = 1 ∨ k = 3) : m.vars.qx k = d.vars.qx k := by
  rw [h.coils k hk, hfree]
  rfl

/-- A state that sends a cylinder out and waits for its limit. -/
theorem proceeds_out (c : UInt16) (pos : Private ℚ → ℚ) (go : Line ℚ) {k : Nat} {step : ℚ}
    {ready : Prop} [Decidable ready] (hstep : 0 < step)
    (hwaiting : ∀ d : Line ℚ, d.priv.sfcState = k →
      waiting v d = scansOut step 0.95 (d.vars.qx c) (pos d.priv))
    (hstate : d.priv.sfcState = k) (hm : m.priv.sfcState = k)
    (hseq : sequence m = if ready then go else m.setQx c 1)
    (hgo : go.priv.sfcState = next k) (hready : ready ↔ 0.95 ≤ pos m.priv)
    (htravel : pos m.priv = travel step (decide (d.vars.qx c ≠ 0)) (pos d.priv)) :
    Proceeds v d (sequence m) := by
  rw [hseq]
  refine .of_wait ready hstate (fun h => by rwa [if_pos h]) fun h => ?_
  have hwaits : waiting v (m.setQx c 1) = scansOut step 0.95 1 (pos m.priv) := by
    rw [hwaiting _ (by exact hm)]
    simp
  rw [if_neg h, hwaits, hwaiting d hstate]
  refine ⟨hm, fun hzero => h ?_, ?_⟩
  · exact hready.mpr ((scansOut_eq_zero hstep (by decide)).mp hzero)
  · rw [htravel]
    exact scansOut_travel hstep (by norm_num) (by decide)

/-- A state that lets a cylinder go and waits until it is back. -/
theorem proceeds_back (c : UInt16) (pos : Private ℚ → ℚ) (go : Line ℚ) {k : Nat} {step : ℚ}
    (hstep : 0 < step)
    (hwaiting : ∀ d : Line ℚ, d.priv.sfcState = k →
      waiting v d = scansBack step 0.05 (d.vars.qx c) (pos d.priv))
    (hstate : d.priv.sfcState = k) (hm : m.priv.sfcState = k)
    (hseq : sequence m = if pos m.priv ≤ 0.05 then go else m.setQx c 0)
    (hgo : go.priv.sfcState = next k)
    (htravel : pos m.priv = travel step (decide (d.vars.qx c ≠ 0)) (pos d.priv)) :
    Proceeds v d (sequence m) := by
  rw [hseq]
  refine .of_wait (pos m.priv ≤ 0.05) hstate (fun h => by rwa [if_pos h]) fun h => ?_
  have hwaits : waiting v (m.setQx c 0) = scansBack step 0.05 0 (pos m.priv) := by
    rw [hwaiting _ (by exact hm)]
    simp
  rw [if_neg h, hwaits, hwaiting d hstate]
  refine ⟨hm, fun hzero => h ((scansBack_eq_zero hstep).mp hzero), ?_⟩
  rw [htravel]
  exact scansBack_travel hstep (by norm_num)

theorem proceeds_cylinder (h : Turned d m) (hfree : eStop d = false) {k : Nat}
    (hk : k ∈ [1, 2, 3, 4, 5, 6]) (hstate : d.priv.sfcState = k) :
    Proceeds v d (sequence m) := by
  have hm : m.priv.sfcState = k := h.state.trans hstate
  have hlift := h.lift
  have hrotate := h.rotate
  rw [h.coil_eq hfree (by simp)] at hlift hrotate
  simp only [List.mem_cons, List.not_mem_nil, or_false] at hk
  rcases hk with rfl | rfl | rfl | rfl | rfl | rfl
  · refine proceeds_out 1 Private.liftPos (goto 2 (m.setQx 1 1)) (by norm_num)
      (fun d hd => ?_) hstate hm ?_ rfl h.down hlift
    · simp only [waiting, hd]
    · simp only [sequence, hm]
      rfl
  · refine proceeds_out 2 Private.clampPos (goto 3 ((m.setQx 2 1).setIx 2 0)) (by norm_num)
      (fun d hd => ?_) hstate hm ?_ rfl h.clamped h.clamp
    · simp only [waiting, hd]
    · simp only [sequence, hm]
      rfl
  · refine proceeds_back 1 Private.liftPos (goto 4 (m.setQx 1 0)) (by norm_num)
      (fun d hd => ?_) hstate hm ?_ rfl hlift
    · simp only [waiting, hd]
    · simp only [sequence, hm]
      rfl
  · refine proceeds_out 3 Private.rotatePos (goto 5 (m.setQx 3 1)) (by norm_num)
      (fun d hd => ?_) hstate hm ?_ rfl h.right hrotate
    · simp only [waiting, hd]
    · simp only [sequence, hm]
      rfl
  · refine proceeds_out 1 Private.liftPos (goto 6 (m.setQx 1 1)) (by norm_num)
      (fun d hd => ?_) hstate hm ?_ rfl h.down hlift
    · simp only [waiting, hd]
    · simp only [sequence, hm]
      rfl
  · refine proceeds_back 2 Private.clampPos (goto 7 ((m.setQx 2 0).setQx 4 1)) (by norm_num)
      (fun d hd => ?_) hstate hm ?_ rfl h.clamp
    · simp only [waiting, hd]
    · simp only [sequence, hm]
      rfl

theorem scansBack_arm (h : Turned d m) (hfree : eStop d = false) :
    scansBack 0.04 0.05 0 m.priv.liftPos ≤
        scansBack 0.04 0.05 (d.vars.qx 1) d.priv.liftPos - 1 ∧
      scansBack 0.033 0.05 0 m.priv.rotatePos ≤
        scansBack 0.033 0.05 (d.vars.qx 3) d.priv.rotatePos - 1 := by
  rw [h.lift, h.rotate, h.coil_eq hfree (by simp), h.coil_eq hfree (by simp)]
  exact ⟨scansBack_travel (by norm_num) (by norm_num),
    scansBack_travel (by norm_num) (by norm_num)⟩

theorem scansBack_away (h : Turned d m) (haway : ¬ m.vars.ix 3 ≠ 0) :
    ¬ (scansBack 0.04 0.05 0 m.priv.liftPos = 0 ∧
      scansBack 0.033 0.05 0 m.priv.rotatePos = 0) := by
  rw [scansBack_eq_zero (by norm_num), scansBack_eq_zero (by norm_num), ← h.home]
  exact haway

theorem proceeds_home (h : Turned d m) (hfree : eStop d = false) (hstate : d.priv.sfcState = 7) :
    Proceeds v d (sequence m) := by
  have hm : m.priv.sfcState = 7 := h.state.trans hstate
  obtain ⟨hlift, hrotate⟩ := scansBack_arm h hfree
  refine .of_wait (m.vars.ix 3 ≠ 0) hstate (fun hhome => ?_) fun haway => ?_
  · simp only [sequence, hm]
    rw [if_pos (by simpa using hhome)]
    rfl
  · have hseq : sequence m = (m.setQx 1 0).setQx 3 0 := by
      simp only [sequence, hm]
      rw [if_neg (by simpa using haway)]
    have hwaits : waiting v ((m.setQx 1 0).setQx 3 0) =
        max (scansBack 0.04 0.05 0 m.priv.liftPos)
          (scansBack 0.033 0.05 0 m.priv.rotatePos) := by
      simp [waiting, hm, Function.update_of_ne]
    have hwaited : waiting v d = max (scansBack 0.04 0.05 (d.vars.qx 1) d.priv.liftPos)
        (scansBack 0.033 0.05 (d.vars.qx 3) d.priv.rotatePos) := by
      simp only [waiting, hstate]
    have hfar := scansBack_away h haway
    rw [hseq, hwaits, hwaited]
    exact ⟨hm, by omega, by omega⟩

theorem approach_le (h : Turned d m) (hfree : eStop d = false) (hv : 0 < v)
    (hfast : v ≤ (d.vars.mw 1).toNat) (hslow : (d.vars.mw 1).toNat ≤ 25000)
    (hon : d.vars.qx 0 ≠ 0 → d.priv.conveyorPos < 500) (hshort : m.priv.conveyorPos < 500) :
    Loop.strides ((v : ℚ) * 0.02) (500 - m.priv.conveyorPos) ≤ approach v d - 1 := by
  have hstride : (0 : ℚ) < v * 0.02 := mul_pos (Nat.cast_pos.mpr hv) (by norm_num)
  have hpos := h.conveyor
  rw [approach]
  by_cases hcoil : d.vars.qx 0 = 0
  · rw [if_neg fun hand => hand.1 hcoil] at hpos
    rw [hpos] at hshort ⊢
    rw [if_pos ⟨hshort, hcoil⟩, Nat.add_sub_cancel]
  · rw [if_pos ⟨hcoil, hfree⟩] at hpos
    rw [if_neg fun hand => hcoil hand.2, Nat.add_zero]
    refine Loop.strides_le_sub_one hstride ?_
    have hspeed : (v : ℚ) ≤ (d.vars.mw 1).toNat := Nat.cast_le.mpr hfast
    rcases transported_slow (hon hcoil) hslow with harrived | hmoved
    · rw [← hpos] at harrived
      exact absurd hshort (not_lt.mpr harrived)
    · rw [hpos, hmoved]
      linarith

theorem proceeds_convey (h : Turned d m) (hfree : eStop d = false) (hconv : Conveying d)
    (hv : 0 < v) (hfast : v ≤ (d.vars.mw 1).toNat) (hslow : (d.vars.mw 1).toNat ≤ 25000)
    (hstate : d.priv.sfcState = 8) : Proceeds v d (sequence m) := by
  have hstride : (0 : ℚ) < v * 0.02 := mul_pos (Nat.cast_pos.mpr hv) (by norm_num)
  have hm : m.priv.sfcState = 8 := h.state.trans hstate
  obtain ⟨⟨h1, h2, h3⟩, -, hon⟩ := hconv hstate
  have hcoils : m.vars.qx 1 = 0 ∧ m.vars.qx 3 = 0 := by
    rw [h.coil_eq hfree (by simp), h.coil_eq hfree (by simp)]
    exact ⟨h1, h3⟩
  obtain ⟨hlift, hrotate⟩ := scansBack_arm h hfree
  have hwaited : waiting v d =
      max (approach v d) (max (scansBack 0.04 0.05 (d.vars.qx 1) d.priv.liftPos)
        (scansBack 0.033 0.05 (d.vars.qx 3) d.priv.rotatePos)) := by
    simp only [waiting, hstate]
  by_cases hshort : m.priv.conveyorPos < 500
  · have hseq : sequence m = m.setQx 0 1 := by
      simp only [sequence, hm]
      rw [if_neg]
      norm_num
      exact hshort
    have hwaits : waiting v (m.setQx 0 1) =
        max (Loop.strides ((v : ℚ) * 0.02) (500 - m.priv.conveyorPos))
          (max (scansBack 0.04 0.05 0 m.priv.liftPos)
            (scansBack 0.033 0.05 0 m.priv.rotatePos)) := by
      simp [waiting, approach, hm, hcoils]
    have hless := approach_le h hfree hv hfast hslow hon hshort
    have hsome : Loop.strides ((v : ℚ) * 0.02) (500 - m.priv.conveyorPos) ≠ 0 := by
      rw [Ne, Loop.strides_eq_zero hstride, not_le]
      linarith
    rw [hseq]
    refine .inl ⟨h.state, ?_⟩
    rw [hwaits, hwaited]
    omega
  · obtain ⟨e, he⟩ : ∃ e, ((moveTo 500.0 (m.setQx 0 1)).setIx 1 1).setQx 0 0 = e := ⟨_, rfl⟩
    have hseq : sequence m = if m.vars.ix 2 ≠ 0 then goto 1 e else e := by
      simp only [sequence, hm]
      rw [if_pos]
      · rw [he]
        have hpart : e.vars.ix 2 = m.vars.ix 2 := by
          rw [← he]
          rfl
        rw [hpart]
      · norm_num
        exact not_lt.mp hshort
    refine .of_wait (m.vars.ix 2 ≠ 0) hstate (fun hpart => ?_) fun hnone => ?_
    · rw [hseq, if_pos hpart]
      rfl
    · have hwaits : waiting v e = max (scansBack 0.04 0.05 0 m.priv.liftPos)
          (scansBack 0.033 0.05 0 m.priv.rotatePos) := by
        have hzero : Loop.strides ((v : ℚ) * 0.02) (500 - 500.0) = 0 :=
          (Loop.strides_eq_zero hstride).mpr (by norm_num)
        have hend : ¬ ((500.0 : ℚ) < 500) := by norm_num
        rw [← he]
        simp [waiting, approach, hm, hcoils, moveTo, hzero, hend]
      have haway : ¬ m.vars.ix 3 ≠ 0 :=
        fun hhome => hnone (h.part hhome (h.clampCoil.trans h2))
      have hfar := scansBack_away h haway
      rw [hseq, if_neg hnone, hwaits, hwaited]
      refine ⟨?_, by omega, by omega⟩
      rw [← he]
      exact hm

end OneScan

/-- A call of the logic in a cycle completes it, or brings the end nearer. -/
theorem remaining_configRun {v : Nat} {d : Line ℚ} (hsound : Sound d) (hconv : Conveying d)
    (hv : 0 < v) (hworks : Working v d) (hbegun : d.priv.sfcState ≠ 0) (tick : UInt64) :
    (d.priv.sfcState = 7 ∧ (configRun tick d).priv.sfcState = 0) ∨
      ((configRun tick d).priv.sfcState ≠ 0 ∧
        remaining v (configRun tick d) < remaining v d) := by
  obtain ⟨hauto, hcurtain, hfast, hslow⟩ := hworks
  have hkept := (configRun_keeps hsound (fun _ => hconv) tick).1
  have hturned := simulate_turned d tick
  have hfree : eStop d = false := by
    rw [eStop, hcurtain]
    rfl
  have hrun : configRun tick d = sequence (simulate tick d) := by
    simp only [configRun]
    rw [if_pos ⟨by rw [hturned.mode]; exact hauto, hfree⟩]
  have hproceeds : Proceeds v d (configRun tick d) := by
    have hstate := hsound.state
    rw [hrun]
    rcases (by omega : d.priv.sfcState = 8 ∨ d.priv.sfcState = 7 ∨
      (1 ≤ d.priv.sfcState ∧ d.priv.sfcState ≤ 6)) with h8 | h7 | hcylinder
    · exact proceeds_convey hturned hfree hconv hv hfast hslow h8
    · exact proceeds_home hturned hfree h7
    · refine proceeds_cylinder hturned hfree ?_ rfl
      simp only [List.mem_cons, List.not_mem_nil, or_false]
      omega
  rcases hproceeds with ⟨hstays, hsome, hless⟩ | hgoes
  · right
    rw [remaining, remaining, hstays]
    exact ⟨hbegun, by omega⟩
  · by_cases h7 : d.priv.sfcState = 7
    · left
      rw [h7] at hgoes
      exact ⟨h7, hgoes⟩
    · right
      have hk : d.priv.sfcState ∈ [8, 1, 2, 3, 4, 5, 6] := by
        have hstate := hsound.state
        simp only [List.mem_cons, List.not_mem_nil, or_false]
        omega
      have hle := remaining_le hkept v hk hgoes
      have hne : next d.priv.sfcState ≠ 0 := by
        simp only [List.mem_cons, List.not_mem_nil, or_false] at hk
        rcases hk with h | h | h | h | h | h | h <;> rw [h] <;> decide
      have hhere : beyond d.priv.sfcState < remaining v d := by
        rw [remaining]
        omega
      exact ⟨hgoes ▸ hne, hle.trans_lt hhere⟩

/-! ## The plant -/

/-- Around the scans. -/
structure Kept (d : Line ℚ) : Prop where
  sound : Sound d
  conveying : Conveying d

/-- Before the call. In MANUAL the coils are what clients have set, and the call
resets the sequence. -/
structure Called (d : Line ℚ) : Prop where
  sound : Sound d
  conveying : d.vars.ix 0 ≠ 0 → Conveying d

section Pulled

variable {d : Line ℚ} (m : PlcMemory)

theorem Kept.called (h : Kept d) : Called (pulled loader m d) where
  sound := by
    obtain ⟨hlift, hrotate, hclamp, hpos, hstate⟩ := h.sound
    rw [← priv_pulled loader m d] at hlift hrotate hclamp hpos hstate
    exact ⟨hlift, hrotate, hclamp, hpos, hstate⟩
  conveying hmode := by
    have hauto := (pulled_ix loader m d (loads.bound (k := 0) (by decide)) (.inl rfl)).mp hmode
    rw [Conveying, pulled_qx loader d hauto, priv_pulled]
    exact h.conveying

theorem Called.kept (h : Called d) (tick : UInt64) : Kept (configRun tick d) :=
  have hkept := configRun_keeps h.sound h.conveying tick
  ⟨hkept.1, hkept.2⟩

theorem remaining_pulled (n : Nat) {m : PlcMemory} (hauto : m.readDiscreteInput 0 = true) :
    remaining n (pulled loader m d) = remaining n d := by
  simp only [remaining, waiting, approach, pulled_qx loader d hauto, priv_pulled]

end Pulled

/-- AUTO, with the curtain free and a speed at which the conveyor comes to the
station. -/
structure Feeding (v : Nat) (m : PlcMemory) : Prop where
  auto : m.readDiscreteInput 0 = true
  curtain : m.readDiscreteInput 7 = false
  fast : v ≤ (m.readHoldingRegister 1).toNat
  slow : (m.readHoldingRegister 1).toNat ≤ 25000

/-- The call completes a cycle. -/
def Completes (tick : UInt64) (d : Line ℚ) : Prop :=
  d.priv.sfcState = 7 ∧ (loader.runLogic tick d).priv.sfcState = 0

theorem Feeding.working {v : Nat} {m : PlcMemory} (h : Feeding v m) (d : Line ℚ) :
    Working v (pulled loader m d) := by
  have hmode := pulled_ix loader m d (loads.bound (k := 0) (by decide)) (.inl rfl)
  have hfree := pulled_ix loader m d (loads.bound (k := 7) (by decide)) (.inr rfl)
  have hspeed := pulled_mw loader m d (loads.bound (k := 1) (by decide))
  refine ⟨hmode.mpr h.auto, ?_, ?_, ?_⟩
  · by_contra hstop
    have hcurtain := h.curtain
    rw [hfree.mp hstop] at hcurtain
    cases hcurtain
  · rw [hspeed]
    exact h.fast
  · rw [hspeed]
    exact h.slow

theorem advances {v : Nat} (hv : 0 < v) :
    Advances loader (Feeding v) (fun d => Kept d ∧ d.priv.sfcState ≠ 0)
      (fun d => Called d ∧ Working v d ∧ d.priv.sfcState ≠ 0) Completes (remaining v) where
  inputs {d m} h hfeeds := by
    refine ⟨⟨h.1.called m, hfeeds.working d, ?_⟩, (remaining_pulled v hfeeds.auto).le⟩
    rw [priv_pulled]
    exact h.2
  logic {d} tick h hgoal := by
    obtain ⟨hcalled, hworks, hbegun⟩ := h
    have hconv := hcalled.conveying hworks.auto
    rw [Completes, loads.runLogic] at hgoal
    rw [loads.runLogic]
    rcases remaining_configRun hcalled.sound hconv hv hworks hbegun tick with
      hdone | ⟨hgoes, hless⟩
    · exact absurd hdone hgoal
    · exact ⟨⟨hcalled.kept tick, hgoes⟩, hless⟩

end Assembly

end VPlc
