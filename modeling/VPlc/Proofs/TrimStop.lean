import VPlc.Proofs.LogicScans
import VPlc.Proofs.TrimSpec

/-!
# The emergency stop of the trim line

The logic drops its outputs when `__IX0_5` is set, and nothing sets it. The
input sync takes discrete inputs 0 and 7 over and no other, the logic never
assigns the variable, and the output sync copies its zero back over what a
client wrote. So the layer at the top of `configRun` is dead code in every run
of the plant, and a scan after the stop was requested is a scan like any other:
in AUTO the five actuators are off at its end exactly if the sequence was about
to leave them off, in MANUAL exactly if they were off already
(`trim_emergency_stop_iff`).
-/

namespace VPlc

open PlcScheduler

namespace Trim

variable {D : Type} [Double D]

/-! ## The loaded library -/

theorem loads : Library.Loads (loader (D := D)) exports configInit configRun :=
  Library.loads_generated (by decide) (by intro t; cases t <;> decide)

theorem actuator_bound {k : UInt16} (hk : k < 5) :
    ⟨.coil, k⟩ ∈ (loader (D := D)).bindings := by
  have hlt : k.toNat < 5 := UInt16.lt_iff_toNat_lt.mp hk
  refine loads.bound ?_
  rw [exports]
  omega

@[simp] theorem runLogic_loader (tick : UInt64) (d : Line D) :
    loader.runLogic tick d = configRun tick d := loads.runLogic tick d

@[simp] theorem initLogic_loader (d : Line D) :
    loader.initLogic d = configInit d := loads.initLogic d

/-- What every run of the plant keeps. After an input sync in MANUAL the coils
are the clients', until the logic has put the sequence back to its start. -/
structure Inv (s : Plant (Private D)) : Prop where
  nil : s.mem.mappings = []
  stop : s.dll.vars.ix 5 = 0
  driven : (s.phase = .logic → s.dll.vars.ix 0 ≠ 0) → Driven s.dll

/-- The input sync: the stop is not read, the mode switch is, and the coils are
in MANUAL. -/
theorem pull_spec {m : PlcMemory} {v v' : Vars}
    (h : PlcLoader.pull (loader (D := D)).bindings m v = v') :
    v'.ix 5 = v.ix 5 ∧ (v'.ix 0 ≠ 0 ↔ m.readDiscreteInput 0 = true) ∧
      ∀ k < 5, v'.qx k =
        if m.readDiscreteInput 0 then v.qx k
        else if m.readCoil k then 1 else 0 := by
  refine ⟨?_, ?_, ?_⟩
  · rw [← h, PlcLoader.pull_ix, if_neg (by simp)]
  · rw [← h, PlcLoader.pull_ix, if_pos ⟨loads.bound (by decide), Or.inl rfl⟩]
    cases m.readDiscreteInput 0 <;> simp
  · intro k hk
    rw [← h, PlcLoader.pull_qx]
    cases m.readDiscreteInput 0 <;> simp [actuator_bound hk]

theorem Inv.driven_pull {s : Plant (Private D)} (h : Inv s)
    (hphase : s.phase = .inputs) {m : PlcMemory} {v : Vars}
    (hv : PlcLoader.pull (loader (D := D)).bindings m s.dll.vars = v)
    (hauto : m.readDiscreteInput 0 = true) :
    Driven (⟨v, s.dll.priv⟩ : Line D) := by
  intro k hk hdrives
  have hcoil := (pull_spec hv).2.2 k hk
  rw [if_pos hauto] at hcoil
  exact hcoil.trans (h.driven (by simp [hphase]) k hk hdrives)

theorem inv_exec {s : Plant (Private D)} (h : Inv s) (e : Event) :
    Inv (exec loader s e) := by
  cases e with
  | client w =>
      exact ⟨mappings_exec loader h.nil (.client w), h.stop, h.driven⟩
  | step =>
      rw [exec]
      cases hphase : s.phase with
      | inputs =>
          obtain ⟨v, hv⟩ : ∃ v,
            PlcLoader.pull (loader (D := D)).bindings s.mem s.dll.vars = v := ⟨_, rfl⟩
          obtain ⟨hstop, hmode, -⟩ := pull_spec hv
          rw [step_inputs loader h.nil hphase, hv]
          refine ⟨h.nil, hstop.trans h.stop, fun hauto => ?_⟩
          exact h.driven_pull hphase hv (hmode.mp (hauto rfl))
      | logic =>
          have hdriven : Driven (configRun s.tick s.dll) := by
            by_cases hmode : s.dll.vars.ix 0 = 0
            · exact .of_state_zero (configRun_manual s.tick h.stop hmode).1
            · exact (configRun_auto s.tick h.stop hmode (h.driven fun _ => hmode)).1
          have hstop := stop_configRun s.tick h.stop
          rw [step_logic loader hphase, runLogic_loader]
          exact ⟨h.nil, hstop, fun _ => hdriven⟩
      | outputs =>
          rw [step_outputs loader h.nil hphase]
          refine ⟨?_, h.stop, fun _ => h.driven (by simp [hphase])⟩
          exact (PlcLoader.mappings_push _ _ _).trans h.nil

theorem inv_run {s : Plant (Private D)} (h : Inv s) (es : List Event) :
    Inv (run loader s es) :=
  Loop.foldl_inv (I := Inv) (fun _ e hs => inv_exec hs e) es h

theorem start_eq {m : PlcMemory} (hnil : m.mappings = []) (d : Line D) :
    start loader m d =
      ⟨PlcLoader.push (loader (D := D)).bindings (configInit d).vars m,
        configInit d, .inputs, 0⟩ := by
  have hpush : (PlcLoader.push (loader (D := D)).bindings (configInit d).vars
      m).mappings = [] := (PlcLoader.mappings_push _ _ _).trans hnil
  simp only [start, PlcLoader.syncOutputsFromDll, initLogic_loader,
    PlcMemory.syncMappings_of_nil hpush]

theorem inv_start {m : PlcMemory} (hnil : m.mappings = []) (d : Line D) :
    Inv (start loader m d) := by
  obtain ⟨d', hd'⟩ : ∃ d', configInit d = d' := ⟨_, rfl⟩
  have hinit : d'.vars.ix 5 = 0 := by simp [← hd', configInit]
  have hstate : d'.priv.trimSfcState = 0 := by simp [← hd', configInit]
  rw [start_eq hnil, hd']
  refine ⟨?_, hinit, fun _ => .of_state_zero hstate⟩
  exact (PlcLoader.mappings_push _ _ _).trans hnil

/-- The states of the plant with this library: a memory without rules and with
the coils the logic has, any variables before the initialization, and any run
of the scheduler and its clients. -/
def Reachable (s : Plant (Private D)) : Prop :=
  ∃ (m : PlcMemory) (d : Line D) (es : List Event),
    m.mappings = [] ∧ 5 ≤ m.size .coil ∧ run loader (start loader m d) es = s

theorem Reachable.inv {s : Plant (Private D)} (h : Reachable s) :
    Inv s ∧ 5 ≤ s.mem.size .coil := by
  obtain ⟨m, d, es, hnil, hsize, rfl⟩ := h
  have hinv := inv_start hnil d
  refine ⟨inv_run hinv es, ?_⟩
  rw [(run_mem loader hinv.nil es).2, start_eq hnil, PlcLoader.size_push]
  exact hsize

/-! ## One scan -/

/-- What decides a scan with this memory at its input sync. In AUTO it is the
guard of the sequence's state; in MANUAL the coils are taken over and put
back. -/
def EndsOff (tick : UInt64) (m : PlcMemory) (d : Line D) : Prop :=
  if m.readDiscreteInput 0 then
    Settles tick ⟨PlcLoader.pull (loader (D := D)).bindings m d.vars, d.priv⟩
  else ∀ k < 5, m.readCoil k = false

theorem configRun_endsOff {s : Plant (Private D)} (h : Inv s)
    (hphase : s.phase = .inputs) (tick : UInt64) (m : PlcMemory) :
    (∀ k < 5, (configRun tick
        ⟨PlcLoader.pull (loader (D := D)).bindings m s.dll.vars, s.dll.priv⟩).vars.qx
          k = 0) ↔ EndsOff tick m s.dll := by
  obtain ⟨v, hv⟩ : ∃ v,
    PlcLoader.pull (loader (D := D)).bindings m s.dll.vars = v := ⟨_, rfl⟩
  obtain ⟨hstop, hmode, hcoils⟩ := pull_spec hv
  have hstop' : v.ix 5 = 0 := hstop.trans h.stop
  rw [EndsOff, hv]
  cases hauto : m.readDiscreteInput 0 with
  | false =>
      have hman : v.ix 0 = 0 := by simpa [hauto] using hmode
      obtain ⟨-, hsame⟩ := configRun_manual tick (d := ⟨v, s.dll.priv⟩) hstop' hman
      rw [if_neg Bool.false_ne_true]
      refine forall₂_congr fun k hk => ?_
      rw [hsame k hk, hcoils k hk, hauto]
      cases m.readCoil k <;> simp
  | true =>
      have hdriven := h.driven_pull hphase hv hauto
      rw [if_pos rfl]
      exact (configRun_auto tick hstop' (hmode.mpr hauto) hdriven).2

/-- The scan publishes what the logic makes of its inputs, whatever clients
write in the meantime. -/
theorem published_iff {s : Plant (Private D)} (h : Inv s)
    (hphase : s.phase = .inputs) (hsize : 5 ≤ s.mem.size .coil)
    (ws ws₁ ws₂ : List ClientWrite) :
    (∀ k < 5, (turns loader s [ws, ws₁, ws₂]).mem.readCoil k = false) ↔
      EndsOff (s.tick + 1) (s.mem.clientWrites ws) s.dll := by
  rw [← configRun_endsOff h hphase, turns_scan loader h.nil hphase]
  simp only [runLogic_loader]
  refine forall₂_congr fun k hk => ?_
  have hlt : k.toNat < s.mem.size .coil :=
    lt_of_lt_of_le (UInt16.lt_iff_toNat_lt.mp hk) hsize
  rw [PlcLoader.readCoil_push _ _ _ (actuator_bound hk) (by simpa using hlt)]
  simp

end Trim

open Trim

/-- If discrete input 5 reads one when a scan takes its inputs, the conveyor, the
docking cylinder, the nutrunner, the glue jet and the seat lifter are off when
it has published its outputs. -/
def EmergencyStops {D : Type} [Double D] (s : Plant (Trim.Private D))
    (ws ws₁ ws₂ : List ClientWrite) : Prop :=
  (s.mem.clientWrites ws).readDiscreteInput 5 = true →
    ∀ k < 5, (turns loader s [ws, ws₁, ws₂]).mem.readCoil k = false

/-- When the emergency stop does what it says. Any run of the plant comes first.
Clients then request the stop by `ws` and a scan follows, with further writes
between its calls. The stop itself is not among the things that decide it. -/
theorem trim_emergency_stop_iff {D : Type} [Double D]
    {s : Plant (Trim.Private D)} (hs : Reachable s) (hphase : s.phase = .inputs)
    (ws ws₁ ws₂ : List ClientWrite)
    (hstop : (s.mem.clientWrites ws).readDiscreteInput 5 = true) :
    EmergencyStops s ws ws₁ ws₂ ↔
      EndsOff (s.tick + 1) (s.mem.clientWrites ws) s.dll := by
  obtain ⟨hinv, hsize⟩ := hs.inv
  rw [EmergencyStops, imp_iff_right hstop]
  exact published_iff hinv hphase hsize ws ws₁ ws₂

/-! ## The plant at its start -/

/-- The library as it is loaded. -/
def trimLine : Line ℚ :=
  ⟨⟨fun _ => 0, fun _ => 0, fun _ => 0, fun _ => 0⟩,
    ⟨0, 0, 0, 0, 0, 0, 20, 0, 0, 0⟩⟩

def trimStart : Plant (Trim.Private ℚ) := start loader PlcMemory.default trimLine

/-- A client sets the mode switch and requests the stop. -/
def stopIn (auto : Bool) : List ClientWrite :=
  [.discreteInput 0 auto, .discreteInput 5 true]

theorem clientWrites_stopIn {m : PlcMemory} (hsize : 5 < m.size .di) (auto : Bool) :
    (m.clientWrites (stopIn auto)).readDiscreteInput 0 = auto ∧
      (m.clientWrites (stopIn auto)).readDiscreteInput 5 = true ∧
      ∀ k, (m.clientWrites (stopIn auto)).readCoil k = m.readCoil k := by
  have hmode := PlcMemory.readDiscreteInput_writeDiscreteInput m 0 auto
    (lt_trans (by decide) hsize)
  have hstop := PlcMemory.readDiscreteInput_writeDiscreteInput
    (m.writeDiscreteInput 0 auto) 5 true
    (by rw [PlcMemory.writeDiscreteInput_eq, PlcMemory.size_set]; exact hsize)
  exact ⟨(hstop 0).trans (hmode 0), hstop 5, fun _ => rfl⟩

theorem trimStart_reachable : Reachable trimStart :=
  ⟨PlcMemory.default, trimLine, [], rfl,
    (by decide : 4 < 1024).trans_le (PlcMemory.size_default .coil).1, rfl⟩

theorem trimStart_eq :
    trimStart = ⟨PlcLoader.push (loader (D := ℚ)).bindings
      (configInit trimLine).vars PlcMemory.default, configInit trimLine, .inputs, 0⟩ :=
  start_eq rfl trimLine

theorem trimStart_size : 5 < trimStart.mem.size .di := by
  rw [trimStart_eq, PlcLoader.size_push]
  exact (by decide : 5 < 1024).trans_le (PlcMemory.size_default .di).1

theorem trimStart_coils : ∀ k < 5, trimStart.mem.readCoil k = false := by
  intro k hk
  have hoff : ∀ k < 5, (configInit trimLine).vars.qx k = 0 := by
    simp [forall_lt_five, configInit]
  rw [trimStart_eq, PlcLoader.readCoil_push _ _ _ (actuator_bound hk), hoff k hk]
  · rfl
  · have hlt : k.toNat < 5 := UInt16.lt_iff_toNat_lt.mp hk
    exact (hlt.trans (by decide)).trans_le (PlcMemory.size_default .coil).1

/-- In MANUAL with everything off, the stop finds nothing to do. -/
theorem trim_emergency_stop_manual :
    EmergencyStops trimStart (stopIn false) [] [] := by
  obtain ⟨hmode, hstop, hcoils⟩ := clientWrites_stopIn trimStart_size false
  refine (trim_emergency_stop_iff trimStart_reachable ?_ _ [] [] hstop).mpr ?_
  · rw [trimStart_eq]
  · rw [EndsOff, hmode, if_neg Bool.false_ne_true]
    intro k hk
    rw [hcoils, trimStart_coils k hk]

/-- No vehicle has arrived and the hanger stands, so in AUTO the sequence is
about to start the conveyor. -/
theorem not_endsOff_configInit {m : PlcMemory} (hmode : m.readDiscreteInput 0 = true)
    (tick : UInt64) : ¬ EndsOff tick m (configInit trimLine) := by
  obtain ⟨v, hv⟩ : ∃ v, PlcLoader.pull (loader (D := ℚ)).bindings m
    (configInit trimLine).vars = v := ⟨_, rfl⟩
  have hconveyor : v.qx 0 = 0 := by
    rw [(pull_spec hv).2.2 0 (by decide), if_pos hmode]
    simp [configInit]
  have hstation : v.ix 1 = 0 := by
    rw [← hv, PlcLoader.pull_ix, if_neg (by simp)]
    simp [configInit]
  rw [EndsOff, if_pos hmode, hv]
  simp [Settles, configInit, Arrives, hconveyor, hstation]

theorem not_emergencyStops {s : Plant (Trim.Private ℚ)} (hs : Reachable s)
    (hphase : s.phase = .inputs) (hdll : s.dll = configInit trimLine)
    (hsize : 5 < s.mem.size .di) : ¬ EmergencyStops s (stopIn true) [] [] := by
  intro h
  obtain ⟨hmode, hstop, -⟩ := clientWrites_stopIn hsize true
  obtain ⟨hinv, hcoils⟩ := hs.inv
  have hends := (published_iff hinv hphase hcoils (stopIn true) [] []).mp (h hstop)
  rw [hdll] at hends
  exact not_endsOff_configInit hmode _ hends

/-- In AUTO the line starts all the same. -/
theorem trim_emergency_stop_ignored :
    ¬ ∀ (s : Plant (Trim.Private ℚ)) (ws ws₁ ws₂ : List ClientWrite),
      Reachable s → s.phase = .inputs → EmergencyStops s ws ws₁ ws₂ := by
  intro h
  have hphase : trimStart.phase = .inputs := by rw [trimStart_eq]
  have hdll : trimStart.dll = configInit trimLine := by rw [trimStart_eq]
  exact not_emergencyStops trimStart_reachable hphase hdll trimStart_size
    (h trimStart (stopIn true) [] [] trimStart_reachable hphase)

end VPlc
