import VPlc.Logic.State
import VPlc.Loop.Each
import VPlc.Proofs.ScanSecrecy

/-!
# Scans of a loaded logic

The three logics are loaded alike: the loader finds both hooks, and a binding for
every variable the shared object exports. With no rules a scan is then a call of
the logic, on what the input sync makes of its variables, whatever clients write
in between (`amid_eq`).
-/

namespace VPlc

open PlcScheduler

namespace Library

variable {σ : Type} {exports : VarType → Nat} {configInit : LogicState σ → LogicState σ}
  {configRun : UInt64 → LogicState σ → LogicState σ}

/-- The loader has loaded such a shared object. -/
structure Loads (L : PlcLoader σ) (exports : VarType → Nat)
    (configInit : LogicState σ → LogicState σ)
    (configRun : UInt64 → LogicState σ → LogicState σ) : Prop where
  initLogic : ∀ d, L.initLogic d = configInit d
  runLogic : ∀ tick d, L.runLogic tick d = configRun tick d
  bound : ∀ {t : VarType} {k : UInt16}, k.toNat < exports t → ⟨t, k⟩ ∈ L.bindings

theorem loads_generated {path : String} (hpath : path.isEmpty = false)
    (hexports : ∀ t, exports t ≤ 64) :
    Loads (PlcLoader.loadLibrary (fun _ => some (generated exports configInit configRun)) path).1
      exports configInit configRun := by
  simp only [PlcLoader.loadLibrary, hpath, Bool.false_eq_true, if_false]
  refine ⟨fun _ => rfl, fun _ _ => rfl, fun {t k} hk => ?_⟩
  refine PlcLoader.mem_resolveBindings.mpr ⟨hk.trans_le (hexports t), ?_⟩
  refine List.contains_iff_mem.mpr (List.mem_flatMap.mpr ⟨t, by cases t <;> simp, ?_⟩)
  exact List.mem_map.mpr ⟨k.toNat, List.mem_range.mpr hk, by simp⟩

end Library

/-! ## What the input sync brings in -/

namespace PlcScheduler

variable {σ : Type} (L : PlcLoader σ) (m : PlcMemory) (d : LogicState σ) {k : UInt16}

/-- The library after an input sync of this memory. -/
def pulled : LogicState σ := ⟨PlcLoader.pull L.bindings m d.vars, d.priv⟩

@[simp] theorem priv_pulled : (pulled L m d).priv = d.priv := by
  rw [pulled]

theorem pulled_iw : (pulled L m d).vars.iw = d.vars.iw := by
  rw [pulled, PlcLoader.pull_iw]

theorem pulled_ix (hb : ⟨.discreteInput, k⟩ ∈ L.bindings) (hk : k = 0 ∨ k = 7) :
    (pulled L m d).vars.ix k ≠ 0 ↔ m.readDiscreteInput k = true := by
  rw [pulled, PlcLoader.pull_ix, if_pos ⟨hb, hk⟩]
  exact sensor_ne_zero

theorem pulled_sensor (h0 : k ≠ 0) (h7 : k ≠ 7) :
    (pulled L m d).vars.ix k = d.vars.ix k := by
  rw [pulled, PlcLoader.pull_ix, if_neg fun hk => hk.2.elim h0 h7]

theorem pulled_mw (hb : ⟨.holdingRegister, k⟩ ∈ L.bindings) :
    (pulled L m d).vars.mw k = m.readHoldingRegister k := by
  rw [pulled, PlcLoader.pull_mw, if_pos hb]

theorem pulled_qx {m : PlcMemory} (hauto : m.readDiscreteInput 0 = true) :
    (pulled L m d).vars.qx = d.vars.qx := by
  funext k
  rw [pulled, PlcLoader.pull_qx, if_neg fun h => absurd (hauto.symm.trans h.2) (by decide)]

end PlcScheduler

/-! ## Scans amid clients -/

/-- What clients write around the calls of a scan. -/
structure Interference where
  before : List ClientWrite
  between : List ClientWrite
  after : List ClientWrite

variable {σ : Type} (L : PlcLoader σ)

def amid (s : Plant σ) (w : Interference) : Plant σ :=
  turns L s [w.before, w.between, w.after]

/-- The memory the input sync reads. -/
def synced (s : Plant σ) (w : Interference) : PlcMemory := s.mem.clientWrites w.before

/-- The logic's state after the scan. -/
def called (s : Plant σ) (w : Interference) : LogicState σ :=
  L.runLogic (s.tick + 1) ⟨PlcLoader.pull L.bindings (synced s w) s.dll.vars, s.dll.priv⟩

theorem Library.Loads.called {exports : VarType → Nat}
    {configInit : LogicState σ → LogicState σ}
    {configRun : UInt64 → LogicState σ → LogicState σ} {L : PlcLoader σ}
    (h : Library.Loads L exports configInit configRun) (s : Plant σ) (w : Interference) :
    called L s w = configRun (s.tick + 1) (pulled L (synced s w) s.dll) :=
  h.runLogic _ _

/-- The scheduler is about to begin a scan, and there are no rules. -/
structure AtScan (s : Plant σ) : Prop where
  nil : s.mem.mappings = []
  phase : s.phase = .inputs

variable {s : Plant σ}

theorem amid_eq (h : AtScan s) (w : Interference) :
    amid L s w =
      ⟨PlcLoader.push L.bindings (called L s w).vars
        (((synced s w).clientWrites w.between).clientWrites w.after),
        called L s w, .inputs, s.tick + 1⟩ :=
  turns_scan L h.nil h.phase w.before w.between w.after

theorem AtScan.amid (h : AtScan s) (w : Interference) : AtScan (amid L s w) := by
  rw [amid_eq L h]
  refine ⟨?_, rfl⟩
  rw [PlcLoader.mappings_push, PlcMemory.mappings_clientWrites,
    PlcMemory.mappings_clientWrites, synced, PlcMemory.mappings_clientWrites, h.nil]

theorem size_amid (h : AtScan s) (w : Interference) (a : Area) :
    (amid L s w).mem.size a = s.mem.size a := by
  rw [amid_eq L h, PlcLoader.size_push, PlcMemory.size_clientWrites,
    PlcMemory.size_clientWrites, synced, PlcMemory.size_clientWrites]

/-- A bound coil that the logic leaves off reads as off, also beyond the store. -/
theorem readCoil_amid (h : AtScan s) (w : Interference) {k : UInt16}
    (hb : ⟨.coil, k⟩ ∈ L.bindings) (hoff : (called L s w).vars.qx k = 0) :
    (amid L s w).mem.readCoil k = false := by
  rw [amid_eq L h]
  obtain ⟨m, hm⟩ : ∃ m, PlcLoader.push L.bindings (called L s w).vars
      (((synced s w).clientWrites w.between).clientWrites w.after) = m := ⟨_, rfl⟩
  rw [hm]
  show m.readCoil k = false
  by_cases hk : k.toNat < m.size .coil
  · rw [← hm, PlcLoader.size_push] at hk
    rw [← hm, PlcLoader.readCoil_push _ _ _ hb hk, hoff]
    rfl
  · exact PlcMemory.array_getD_of_size_le (Nat.not_lt.mp hk)

end VPlc
