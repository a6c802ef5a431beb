import VPlc.Proofs.AssemblyInterlock
import VPlc.Proofs.LogicScans

/-!
# The assembly line behind its light curtain

While the curtain is interrupted the logic clears its coils, all but the clamp's,
and neither the conveyor nor the sequence is run. What a client has forced on in
MANUAL is cleared in the same call, before it is published. So nothing moves, for
as many scans as it takes (`assembly_stop_freezes`).
-/

namespace VPlc

open PlcScheduler

namespace Assembly

variable {D : Type} [Double D] [Mul D]

/-! ## The loaded library -/

theorem loads : Library.Loads (loader (D := D)) exports configInit configRun :=
  Library.loads_generated (by decide) (by intro t; cases t <;> decide)

/-! ## One call -/

/-- The coils the curtain clears, and the rest as it was. -/
structure Cut (d d' : Line D) : Prop where
  coils : ∀ k ∈ ([0, 1, 3, 4, 5] : List UInt16), d'.vars.qx k = 0
  clamp : d'.vars.qx 2 = d.vars.qx 2
  count : d'.vars.mw 0 = d.vars.mw 0
  mode : d'.vars.ix 0 = d.vars.ix 0
  pos : d'.priv.conveyorPos = d.priv.conveyorPos
  state : d'.priv.sfcState = d.priv.sfcState

theorem simulate_cut (tick : UInt64) {d : Line D} (hstop : eStop d = true) :
    Cut d (simulate tick d) := by
  obtain ⟨d₁, hd₁⟩ : ∃ d₁, lightCurtain tick d = d₁ := ⟨_, rfl⟩
  have hcut : Cut d d₁ ∧ eStop d₁ = true := by
    rw [← hd₁, lightCurtain, if_pos hstop]
    refine ⟨⟨?_, rfl, rfl, rfl, rfl, rfl⟩, hstop⟩
    simp [cutOutputs]
  obtain ⟨⟨hcoils, hclamp, hcount, hmode, hpos, hstate⟩, hstop₁⟩ := hcut
  have hstands : conveyor d₁ = d₁.setIw 0 (Double.toUInt16 (d₁.priv.conveyorPos + 0.5)) := by
    rw [conveyor, hstop₁]
    simp
  obtain ⟨d₂, hd₂⟩ : ∃ d₂, home (clamp (rotate (lift (conveyor d₁)))) = d₂ := ⟨_, rfl⟩
  have hrest : d₂.vars.qx = d₁.vars.qx ∧ d₂.vars.mw = d₁.vars.mw ∧
      d₂.vars.ix 0 = d₁.vars.ix 0 ∧ d₂.priv.conveyorPos = d₁.priv.conveyorPos ∧
      d₂.priv.sfcState = d₁.priv.sfcState := by
    rw [← hd₂, hstands]
    exact ⟨rfl, rfl, rfl, rfl, rfl⟩
  obtain ⟨hqx, hmw, hix, hpos₂, hstate₂⟩ := hrest
  obtain ⟨hsame, hpriv, -⟩ := parts_same d₂
  rw [show simulate tick d = parts d₂ by rw [simulate, hd₁, hd₂]]
  refine ⟨?_, ?_, ?_, ?_, ?_, ?_⟩
  · rw [hsame.coils, hqx]
    exact hcoils
  · rw [hsame.coils, hqx, hclamp]
  · rw [mw_parts, hmw, hcount]
  · rw [hsame.mode, hix, hmode]
  · rw [hpriv, hpos₂, hpos]
  · rw [hsame.state, hstate₂, hstate]

/-- A call leaves the conveyor and the counter alone, and in AUTO the clamp's coil
and the sequence. -/
theorem configRun_cut (tick : UInt64) {d : Line D} (hstop : eStop d = true) :
    (∀ k ∈ ([0, 1, 3, 4, 5] : List UInt16), (configRun tick d).vars.qx k = 0) ∧
      (configRun tick d).priv.conveyorPos = d.priv.conveyorPos ∧
      (configRun tick d).vars.mw 0 = d.vars.mw 0 ∧
      (configRun tick d).vars.qx 2 = d.vars.qx 2 ∧
      (d.vars.ix 0 ≠ 0 → (configRun tick d).priv.sfcState = d.priv.sfcState) := by
  obtain ⟨hcoils, hclamp, hcount, hmode, hpos, hstate⟩ := simulate_cut tick hstop
  have hrun : configRun tick d =
      if d.vars.ix 0 = 0 then goto 0 (simulate tick d) else simulate tick d := by
    simp [configRun, hstop, hmode]
  rw [hrun]
  split
  · next hmanual => exact ⟨hcoils, hpos, hcount, hclamp, fun h => absurd hmanual h⟩
  · exact ⟨hcoils, hpos, hcount, hclamp, fun _ => hstate⟩

/-! ## Runs with the curtain interrupted -/

/-- The scan finds the curtain interrupted. -/
def Interrupted (s : Plant (Private D)) (w : Interference) : Prop :=
  (synced s w).readDiscreteInput 7 = true

/-- After the scan nothing has moved. -/
structure Frozen (pos : D) (s : Plant (Private D)) (w : Interference) : Prop where
  coils : ∀ k ∈ ([0, 1, 3, 4, 5] : List UInt16), (amid loader s w).mem.readCoil k = false
  pos : (amid loader s w).dll.priv.conveyorPos = pos
  count : (amid loader s w).dll.vars.mw 0 = (synced s w).readHoldingRegister 0
  auto : (synced s w).readDiscreteInput 0 = true →
    (amid loader s w).dll.vars.qx 2 = s.dll.vars.qx 2 ∧
      (amid loader s w).dll.priv.sfcState = s.dll.priv.sfcState

theorem frozen_amid {s : Plant (Private D)} (h : AtScan s) (w : Interference)
    (hstop : Interrupted s w) : Frozen s.dll.priv.conveyorPos s w := by
  have hcurtain := pulled_ix loader (synced s w) s.dll
    (loads.bound (k := 7) (by decide)) (.inr rfl)
  have hmode := pulled_ix loader (synced s w) s.dll
    (loads.bound (k := 0) (by decide)) (.inl rfl)
  have hcount := pulled_mw loader (synced s w) s.dll (loads.bound (k := 0) (by decide))
  have hcalled := loads.called s w
  have hstops : eStop (pulled loader (synced s w) s.dll) = true :=
    decide_eq_true (hcurtain.mpr hstop)
  obtain ⟨hoff, hpos, hmw, hqx, hstate⟩ := configRun_cut (s.tick + 1) hstops
  have hend : (amid loader s w).dll =
      configRun (s.tick + 1) (pulled loader (synced s w) s.dll) := by
    rw [amid_eq _ h, hcalled]
  refine ⟨fun k hk => ?_, ?_, ?_, fun hswitch => ?_⟩
  · refine readCoil_amid _ h w (loads.bound ?_) ?_
    · simp only [List.mem_cons, List.not_mem_nil, or_false] at hk
      rcases hk with rfl | rfl | rfl | rfl | rfl <;> decide
    · rw [hcalled]
      exact hoff k hk
  · rw [hend, hpos, priv_pulled]
  · rw [hend, hmw, hcount]
  · rw [hend, hqx, pulled_qx loader s.dll hswitch, hstate (hmode.mpr hswitch), priv_pulled]
    exact ⟨rfl, rfl⟩

/-- As long as every scan finds the curtain interrupted, no scan moves anything,
whatever clients write in between. -/
theorem assembly_stop_freezes (s : Plant (Private D)) (hnil : s.mem.mappings = [])
    (hphase : s.phase = .inputs) (script : List Interference)
    (hstop : Loop.Each (amid loader) Interrupted s script) :
    Loop.Each (amid loader) (Frozen s.dll.priv.conveyorPos) s script := by
  have hstep (pos : D) (s : Plant (Private D)) (w : Interference)
      (h : AtScan s ∧ s.dll.priv.conveyorPos = pos) (hstop : Interrupted s w) :
      Frozen pos s w ∧ AtScan (amid loader s w) ∧
        (amid loader s w).dll.priv.conveyorPos = pos := by
    have hfrozen := frozen_amid h.1 w hstop
    rw [h.2] at hfrozen
    exact ⟨hfrozen, h.1.amid _ w, hfrozen.pos⟩
  exact Loop.Each.imp (hstep s.dll.priv.conveyorPos) ⟨⟨hnil, hphase⟩, rfl⟩ hstop

/-- A client holds the curtain's input and forces the conveyor on. -/
def forced : Interference := ⟨[.coil 0 true, .discreteInput 7 true], [.coil 0 true], []⟩

def stopStart : Plant (Private ℚ) := ⟨PlcMemory.default, assemblyLine, .inputs, 0⟩

theorem interrupted_forced {s : Plant (Private ℚ)} (hsize : 7 < s.mem.size .di) :
    Interrupted s forced := by
  have hread := PlcMemory.readDiscreteInput_writeDiscreteInput (s.mem.writeCoil 0 true) 7 true
    (by rwa [PlcMemory.writeCoil_eq, PlcMemory.size_set]) 7
  exact hread.trans (if_pos rfl)

/-- Two scans in MANUAL. -/
theorem assembly_stop_freezes_forced :
    Loop.Each (amid loader) (Frozen 0) stopStart [forced, forced] := by
  have hsize : 7 < stopStart.mem.size .di :=
    (by decide : 7 < 1024).trans_le (PlcMemory.size_default .di).1
  refine assembly_stop_freezes stopStart rfl rfl [forced, forced] ⟨?_, ?_, trivial⟩
  · exact interrupted_forced hsize
  · refine interrupted_forced ?_
    rw [size_amid _ ⟨rfl, rfl⟩]
    exact hsize

end Assembly

end VPlc
