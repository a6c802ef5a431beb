import VPlc.Logic.Assembly

/-!
# What the layers of the assembly logic do

The simulated machine sets sensors and registers, and leaves the mode, the
curtain, the sequence and its coils alone; only the light curtain touches those,
and it clears them. So a scan can be said in terms of what it began with
(`Simulates`). A step of the sequence moves to the next state or stays
(`SequenceStep`), and what it drives on the way is all that later states can
rely on.
-/

namespace VPlc

namespace Assembly

variable {D : Type}

/-! ## What the devices leave alone -/

/-- Same coils, same switches, same place in the sequence. -/
structure SameCommands (d d' : Line D) : Prop where
  coils : d'.vars.qx = d.vars.qx
  mode : d'.vars.ix 0 = d.vars.ix 0
  curtain : d'.vars.ix 7 = d.vars.ix 7
  state : d'.priv.sfcState = d.priv.sfcState

namespace SameCommands

variable {d d' d'' : Line D}

theorem refl (d : Line D) : SameCommands d d := ⟨rfl, rfl, rfl, rfl⟩

theorem trans (h : SameCommands d d') (h' : SameCommands d' d'') : SameCommands d d'' :=
  ⟨h'.coils.trans h.coils, h'.mode.trans h.mode, h'.curtain.trans h.curtain,
    h'.state.trans h.state⟩

theorem eStop (h : SameCommands d d') : eStop d' = eStop d := by
  rw [Assembly.eStop, h.curtain, Assembly.eStop]

end SameCommands

/-- The arm is where it was. -/
structure SameArm (d d' : Line D) : Prop where
  lift : d'.priv.liftPos = d.priv.liftPos
  rotate : d'.priv.rotatePos = d.priv.rotatePos
  clamp : d'.priv.clampPos = d.priv.clampPos

section Devices

variable (d : Line D)

theorem parts_same : SameCommands d (parts d) ∧ (parts d).priv = d.priv ∧
    ∀ k, k ≠ 2 → (parts d).vars.ix k = d.vars.ix k := by
  rw [parts]
  split
  · exact ⟨⟨rfl, rfl, rfl, rfl⟩, rfl, fun k hk => Function.update_of_ne hk _ _⟩
  · exact ⟨.refl d, rfl, fun _ _ => rfl⟩

theorem mw_parts : (parts d).vars.mw = d.vars.mw := by
  rw [parts]
  split <;> rfl

theorem lightCurtain_spec (tick : UInt64) :
    (lightCurtain tick d).vars.ix = d.vars.ix ∧
      (lightCurtain tick d).priv.sfcState = d.priv.sfcState ∧
      SameArm d (lightCurtain tick d) ∧
      (lightCurtain tick d).vars.qx 1 = (if eStop d then 0 else d.vars.qx 1) ∧
      (lightCurtain tick d).vars.qx 3 = if eStop d then 0 else d.vars.qx 3 := by
  rw [lightCurtain]
  split
  · exact ⟨rfl, rfl, ⟨rfl, rfl, rfl⟩, rfl, rfl⟩
  · exact ⟨rfl, rfl, ⟨rfl, rfl, rfl⟩, rfl, rfl⟩

variable [Double D]

theorem lift_same : SameCommands d (lift d) := ⟨rfl, rfl, rfl, rfl⟩

theorem rotate_same : SameCommands d (rotate d) := ⟨rfl, rfl, rfl, rfl⟩

theorem clamp_same : SameCommands d (clamp d) := ⟨rfl, rfl, rfl, rfl⟩

theorem home_same : SameCommands d (home d) := ⟨rfl, rfl, rfl, rfl⟩

variable [Mul D]

theorem conveyor_same : SameCommands d (conveyor d) ∧ SameArm d (conveyor d) := by
  have htransport : SameCommands d (transport d) ∧ SameArm d (transport d) := by
    simp only [transport]
    split <;> split <;> exact ⟨⟨rfl, rfl, rfl, rfl⟩, rfl, rfl, rfl⟩
  rw [conveyor]
  split
  · obtain ⟨⟨hcoils, hmode, hcurtain, hstate⟩, hlift, hrotate, hclamp⟩ := htransport
    exact ⟨⟨hcoils, hmode, hcurtain, hstate⟩, hlift, hrotate, hclamp⟩
  · exact ⟨⟨rfl, rfl, rfl, rfl⟩, rfl, rfl, rfl⟩

/-- The simulated machine, in terms of the state before it. -/
structure Simulates (d d' : Line D) : Prop where
  mode : d'.vars.ix 0 = d.vars.ix 0
  state : d'.priv.sfcState = d.priv.sfcState
  liftCoil : d'.vars.qx 1 = if eStop d then 0 else d.vars.qx 1
  rotateCoil : d'.vars.qx 3 = if eStop d then 0 else d.vars.qx 3
  lift : d'.priv.liftPos = travel 0.04 (decide (d'.vars.qx 1 ≠ 0)) d.priv.liftPos
  rotate : d'.priv.rotatePos = travel 0.033 (decide (d'.vars.qx 3 ≠ 0)) d.priv.rotatePos
  down : d'.vars.ix 6 = limit d'.priv.liftPos
  right : d'.vars.ix 5 = limit d'.priv.rotatePos

/-- A coil the curtain has cleared does not drive anything anyway. -/
theorem driven_eq {stopped : Bool} {x coil : UInt8} (h : coil = if stopped then 0 else x) :
    (decide (coil ≠ 0) && !stopped) = decide (coil ≠ 0) := by
  cases stopped with
  | false => exact Bool.and_true _
  | true =>
      obtain rfl : coil = 0 := h
      rfl

theorem simulates (tick : UInt64) : Simulates d (simulate tick d) := by
  obtain ⟨hix, hstate, harm, hlift, hrotate⟩ := lightCurtain_spec d tick
  obtain ⟨d₁, hd₁⟩ : ∃ d₁, lightCurtain tick d = d₁ := ⟨_, rfl⟩
  rw [hd₁] at hix hstate harm hlift hrotate
  obtain ⟨hcmd₂, harm₂⟩ := conveyor_same d₁
  obtain ⟨d₂, hd₂⟩ : ∃ d₂, conveyor d₁ = d₂ := ⟨_, rfl⟩
  rw [hd₂] at hcmd₂ harm₂
  have hstop : eStop d₂ = eStop d := by rw [hcmd₂.eStop, eStop, hix, eStop]
  obtain ⟨d₃, hd₃⟩ : ∃ d₃, home (clamp (rotate (Assembly.lift d₂))) = d₃ := ⟨_, rfl⟩
  have hcmd₃ : SameCommands d₂ d₃ := by
    rw [← hd₃]
    exact (lift_same _).trans ((rotate_same _).trans ((clamp_same _).trans (home_same _)))
  have harm₃ : d₃.priv.liftPos =
        travel 0.04 (decide (d₂.vars.qx 1 ≠ 0) && !eStop d₂) d₂.priv.liftPos ∧
      d₃.priv.rotatePos =
        travel 0.033 (decide (d₂.vars.qx 3 ≠ 0) && !eStop d₂) d₂.priv.rotatePos ∧
      d₃.vars.ix 6 = limit d₃.priv.liftPos ∧ d₃.vars.ix 5 = limit d₃.priv.rotatePos := by
    rw [← hd₃]
    exact ⟨rfl, rfl, rfl, rfl⟩
  obtain ⟨hliftPos, hrotatePos, hdown, hright⟩ := harm₃
  obtain ⟨hcmd₄, hpriv, hsensor⟩ := parts_same d₃
  have hcoils : (parts d₃).vars.qx = d₁.vars.qx := (hcmd₂.trans (hcmd₃.trans hcmd₄)).coils
  have hdriven := driven_eq hlift
  have hdriven' := driven_eq hrotate
  rw [hstop, hcmd₂.coils, harm₂.lift, harm.lift, hdriven] at hliftPos
  rw [hstop, hcmd₂.coils, harm₂.rotate, harm.rotate, hdriven'] at hrotatePos
  have hall : simulate tick d = parts d₃ := by rw [simulate, hd₁, hd₂, hd₃]
  rw [hall]
  refine ⟨?_, ?_, ?_, ?_, ?_, ?_, ?_, ?_⟩
  · rw [(hcmd₂.trans (hcmd₃.trans hcmd₄)).mode, hix]
  · rw [(hcmd₂.trans (hcmd₃.trans hcmd₄)).state, hstate]
  · rw [hcoils, hlift]
  · rw [hcoils, hrotate]
  · rw [hcoils, hpriv, hliftPos]
  · rw [hcoils, hpriv, hrotatePos]
  · rw [hpriv, hsensor 6 (by decide), hdown]
  · rw [hpriv, hsensor 5 (by decide), hright]

end Devices

/-! ## What a step of the sequence does -/

/-- The arm stays, and of the sequence: how it comes to the states where the
arm is trusted to be somewhere, how it leaves them, and what holds it there. -/
structure SequenceStep (d d' : Line D) : Prop where
  lift : d'.priv.liftPos = d.priv.liftPos
  rotate : d'.priv.rotatePos = d.priv.rotatePos
  pick : d'.priv.sfcState = 2 →
    (d.priv.sfcState = 2 ∧ d'.vars.qx 1 = d.vars.qx 1) ∨
      (d.priv.sfcState = 1 ∧ d'.vars.qx 1 = 1 ∧ d.vars.ix 6 ≠ 0)
  taken : d'.priv.sfcState = 3 → d.priv.sfcState = 3 ∨ d.priv.sfcState = 2
  place : d'.priv.sfcState = 5 →
    (d.priv.sfcState = 5 ∧ d'.vars.qx 3 = d.vars.qx 3) ∨
      (d.priv.sfcState = 4 ∧ d'.vars.qx 3 = 1 ∧ d.vars.ix 5 ≠ 0)
  release : d'.priv.sfcState = 6 → d.priv.sfcState = 6 ∨ d.priv.sfcState = 5

theorem sequence_step [Double D] (d : Line D) : SequenceStep d (sequence d) := by
  have hstays : ∀ {d d' : Line D} {k : Nat}, d.priv.sfcState = k → d'.priv.sfcState = k →
      d'.priv.liftPos = d.priv.liftPos → d'.priv.rotatePos = d.priv.rotatePos →
      (k = 2 → d'.vars.qx 1 = d.vars.qx 1) → (k = 5 → d'.vars.qx 3 = d.vars.qx 3) →
      SequenceStep d d' := by
    intro d d' k hk hk' hlift hrotate h2 h5
    refine ⟨hlift, hrotate, fun h => ?_, fun h => ?_, fun h => ?_, fun h => ?_⟩
    · exact Or.inl ⟨by omega, h2 (by omega)⟩
    · exact Or.inl (by omega)
    · exact Or.inl ⟨by omega, h5 (by omega)⟩
    · exact Or.inl (by omega)
  simp only [sequence]
  split
  · next h =>
      split
      · exact ⟨rfl, rfl, nofun, nofun, nofun, nofun⟩
      · exact hstays h h rfl rfl nofun nofun
  · next h =>
      split
      · split
        · exact ⟨rfl, rfl, nofun, nofun, nofun, nofun⟩
        · exact hstays h h rfl rfl nofun nofun
      · exact hstays h h rfl rfl nofun nofun
  · next h =>
      split
      · next hdown =>
          exact ⟨rfl, rfl, fun _ => Or.inr ⟨h, rfl, hdown⟩, nofun, nofun, nofun⟩
      · exact hstays h h rfl rfl nofun nofun
  · next h =>
      split
      · exact ⟨rfl, rfl, nofun, fun _ => Or.inr h, nofun, nofun⟩
      · exact hstays h h rfl rfl (fun _ => rfl) nofun
  · next h =>
      split
      · exact ⟨rfl, rfl, nofun, nofun, nofun, nofun⟩
      · exact hstays h h rfl rfl nofun nofun
  · next h =>
      split
      · next hright =>
          exact ⟨rfl, rfl, nofun, nofun, fun _ => Or.inr ⟨h, rfl, hright⟩, nofun⟩
      · exact hstays h h rfl rfl nofun nofun
  · next h =>
      split
      · exact ⟨rfl, rfl, nofun, nofun, nofun, fun _ => Or.inr h⟩
      · exact hstays h h rfl rfl nofun (fun _ => rfl)
  · next h =>
      split
      · exact ⟨rfl, rfl, nofun, nofun, nofun, nofun⟩
      · exact hstays h h rfl rfl nofun nofun
  · next h =>
      split
      · exact ⟨rfl, rfl, nofun, nofun, nofun, nofun⟩
      · exact hstays h h rfl rfl nofun nofun
  · exact hstays rfl rfl rfl rfl (fun _ => rfl) (fun _ => rfl)

end Assembly

end VPlc
