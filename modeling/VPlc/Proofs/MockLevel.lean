import Mathlib.Algebra.Order.Round
import Mathlib.Tactic.Linarith
import Mathlib.Tactic.NormNum
import VPlc.Logic.Mock
import VPlc.Proofs.LogicScans

/-!
# The level of the water tank

The valves are a scan behind the level. So the level may pass a limit by what
flows in one scan, and no further: a tank that fills has not been above the high
limit, and one that drains has not been below the low one (`Regulated`). That is
kept by every scan in AUTO, and it holds after the first one whatever the valves
were, since the level was between the limits (`regulated_configRun`).
-/

namespace VPlc

open PlcScheduler

namespace Mock

/-! ## The tank -/

theorem flow_eq (inlet outlet : UInt8) {level : ℚ} (hlo : 1 ≤ level) (hhi : level ≤ 999) :
    flow inlet outlet level =
      level - 0.02 + (if inlet ≠ 0 then 0.4 else 0) - if outlet ≠ 0 then 0.3 else 0 := by
  have hwalls {x : ℚ} (hx : 0 ≤ x) (hx' : x ≤ 1000) :
      (if 1000.0 < (if x < 0.0 then 0.0 else x) then 1000.0 else if x < 0.0 then 0.0 else x) =
        x := by
    norm_num
    rw [if_neg (not_lt.mpr hx), if_neg (not_lt.mpr hx')]
  obtain ⟨change, hchange⟩ : ∃ change : ℚ, (if outlet ≠ 0 then
      (if inlet ≠ 0 then (0.0 : ℚ) - 0.02 + 0.4 else 0.0 - 0.02) - 0.3
      else if inlet ≠ 0 then (0.0 : ℚ) - 0.02 + 0.4 else 0.0 - 0.02) = change := ⟨_, rfl⟩
  have hof : flow inlet outlet level = level + change := by
    rw [← hchange]
    refine hwalls ?_ ?_ <;> split <;> split <;> norm_num <;> linarith
  rw [hof, ← hchange]
  split <;> split <;> norm_num <;> ring

/-- The tank fills and has not been above the high limit, or it drains and has not
been below the low one. -/
def Follows (d : Tank ℚ) : Prop :=
  (d.vars.qx 0 ≠ 0 ∧ d.vars.qx 1 = 0 ∧ d.priv.levelSim < 850) ∨
    (d.vars.qx 0 = 0 ∧ d.vars.qx 1 ≠ 0 ∧ 150 < d.priv.levelSim)

/-- The level is at most a scan beyond the limits, and shown. -/
structure Regulated (d : Tank ℚ) : Prop where
  low : 149.68 ≤ d.priv.levelSim
  high : d.priv.levelSim ≤ 850.38
  follows : Follows d
  reading : ((d.vars.iw 0).toNat : ℤ) = round d.priv.levelSim

/-- What a scan in AUTO may start from. -/
def Controlled (d : Tank ℚ) : Prop :=
  (150 ≤ d.priv.levelSim ∧ d.priv.levelSim ≤ 850) ∨ Regulated d

theorem flow_range {d : Tank ℚ} (h : Controlled d) :
    149.68 ≤ flow (d.vars.qx 0) (d.vars.qx 1) d.priv.levelSim ∧
      flow (d.vars.qx 0) (d.vars.qx 1) d.priv.levelSim ≤ 850.38 := by
  rcases h with ⟨hlo, hhi⟩ | ⟨hlo, hhi, hfollows, -⟩
  · rw [flow_eq _ _ (by linarith) (by linarith)]
    constructor <;> split <;> split <;> linarith
  · rw [flow_eq _ _ (by linarith) (by linarith)]
    rcases hfollows with ⟨hin, hout, hbelow⟩ | ⟨hin, hout, habove⟩
    · rw [if_pos hin, if_neg (not_not.mpr hout)]
      constructor <;> linarith
    · rw [if_neg (not_not.mpr hin), if_pos hout]
      constructor <;> linarith

theorem reading_eq {level : ℚ} (hlo : 149.68 ≤ level) (hhi : level ≤ 850.38) :
    ((Double.toUInt16 (level + 0.5)).toNat : ℤ) = round level := by
  have hhalf : level + 0.5 = level + 1 / 2 := by norm_num
  have hfloor : 0 ≤ ⌊level + 1 / 2⌋ ∧ ⌊level + 1 / 2⌋ < 65536 := by
    rw [Int.le_floor, Int.floor_lt]
    norm_num at hlo hhi ⊢
    constructor <;> linarith
  rw [round_eq, hhalf]
  show ((UInt16.ofNat ⌊level + 1 / 2⌋.toNat).toNat : ℤ) = _
  rw [UInt16.toNat_ofNat_of_lt' (by simp only [UInt16.size]; omega)]
  omega

/-! ## One call -/

theorem follows_valves {d : Tank ℚ} (hfill : d.priv.autoState = 1 → d.priv.levelSim < 850)
    (hdrain : d.priv.autoState ≠ 1 → 150 < d.priv.levelSim) :
    Follows (if d.priv.autoState = 1 then d.setQx 0 1 |>.setQx 1 0
      else d.setQx 0 0 |>.setQx 1 1) := by
  split
  · next h => exact .inl ⟨by simp, by simp, hfill h⟩
  · next h => exact .inr ⟨by simp, by simp, hdrain h⟩

/-- In AUTO the valves go by the level of this scan. -/
theorem follows_control {d : Tank ℚ} (hauto : d.vars.ix 0 ≠ 0)
    (hlow : d.vars.ix 1 ≠ 0 ↔ d.priv.levelSim ≤ 150)
    (hhigh : d.vars.ix 2 ≠ 0 ↔ 850 ≤ d.priv.levelSim) : Follows (control d) := by
  rw [control, if_pos hauto]
  by_cases hempty : d.priv.levelSim ≤ 150
  · rw [if_pos (hlow.mpr hempty)]
    refine follows_valves (fun _ => ?_) fun h => absurd rfl h
    show d.priv.levelSim < 850
    linarith
  rw [if_neg fun h => hempty (hlow.mp h)]
  by_cases hfull : 850 ≤ d.priv.levelSim
  · rw [if_pos (hhigh.mpr hfull)]
    refine follows_valves (fun h => absurd h (by simp [setAutoState])) fun _ => ?_
    show 150 < d.priv.levelSim
    linarith
  · rw [if_neg fun h => hfull (hhigh.mp h)]
    exact follows_valves (fun _ => not_le.mp hfull) fun _ => not_le.mp hempty

theorem control_same (d : Tank ℚ) :
    (control d).priv.levelSim = d.priv.levelSim ∧ (control d).vars.iw = d.vars.iw := by
  simp only [control]
  split
  · split <;> split <;> (try split) <;> exact ⟨rfl, rfl⟩
  · exact ⟨rfl, rfl⟩

theorem monitor_same (d : Tank ℚ) :
    (monitor d).vars.qx 0 = d.vars.qx 0 ∧ (monitor d).vars.qx 1 = d.vars.qx 1 ∧
      (monitor d).vars.iw = d.vars.iw ∧ (monitor d).priv.levelSim = d.priv.levelSim := by
  simp only [monitor]
  split <;> exact ⟨rfl, rfl, rfl, rfl⟩

theorem ix_simulate (d : Tank ℚ) :
    ((simulate d).vars.ix 1 ≠ 0 ↔ (simulate d).priv.levelSim ≤ 150) ∧
      ((simulate d).vars.ix 2 ≠ 0 ↔ 850 ≤ (simulate d).priv.levelSim) := by
  obtain ⟨level, hlevel⟩ : ∃ level, (simulate d).priv.levelSim = level := ⟨_, rfl⟩
  have hlow : (simulate d).vars.ix 1 = if level ≤ 150.0 then 1 else 0 := by
    rw [← hlevel]
    rfl
  have hhigh : (simulate d).vars.ix 2 = if 850.0 ≤ level then 1 else 0 := by
    rw [← hlevel]
    rfl
  rw [hlow, hhigh, hlevel, sensor_ne_zero, sensor_ne_zero]
  norm_num

theorem regulated_configRun (tick : UInt64) {d : Tank ℚ} (hauto : d.vars.ix 0 ≠ 0)
    (h : Controlled d) : Regulated (configRun tick d) := by
  obtain ⟨hlo, hhi⟩ := flow_range h
  obtain ⟨hlow, hhigh⟩ := ix_simulate d
  have hfollows := follows_control (d := simulate d) hauto hlow hhigh
  obtain ⟨hlevel, hiw⟩ := control_same (simulate d)
  obtain ⟨hin, hout, hshown, hkept⟩ := monitor_same (control (simulate d))
  have hlevel : (configRun tick d).priv.levelSim =
      flow (d.vars.qx 0) (d.vars.qx 1) d.priv.levelSim := hkept.trans hlevel
  refine ⟨?_, ?_, ?_, ?_⟩
  · rw [hlevel]
    exact hlo
  · rw [hlevel]
    exact hhi
  · rw [configRun, Follows, hin, hout, hkept]
    exact hfollows
  · rw [hlevel, configRun, hshown, hiw]
    exact reading_eq hlo hhi

/-! ## Runs in AUTO -/

/-- The scan finds the mode switch on. -/
def Auto (s : Plant (Private ℚ)) (w : Interference) : Prop :=
  (synced s w).readDiscreteInput 0 = true

/-- After the scan the level is in bounds, one valve is open, and the level is
shown. -/
structure Safe (s : Plant (Private ℚ)) (w : Interference) : Prop where
  low : 149.68 ≤ (amid loader s w).dll.priv.levelSim
  high : (amid loader s w).dll.priv.levelSim ≤ 850.38
  valves : (amid loader s w).dll.vars.qx 0 ≠ 0 ↔ (amid loader s w).dll.vars.qx 1 = 0
  reading : (((amid loader s w).dll.vars.iw 0).toNat : ℤ) =
    round (amid loader s w).dll.priv.levelSim

theorem loads {D : Type} [Double D] :
    Library.Loads (loader (D := D)) exports configInit configRun :=
  Library.loads_generated (by decide) (by intro t; cases t <;> decide)

/-- In AUTO the coils that clients write do not reach the logic. -/
theorem regulated_amid {s : Plant (Private ℚ)} (h : AtScan s) (w : Interference)
    (hauto : Auto s w) (hcontrolled : Controlled s.dll) :
    Regulated (amid loader s w).dll := by
  have hmode := pulled_ix loader (synced s w) s.dll
    (loads.bound (k := 0) (by decide)) (.inl rfl)
  rw [amid_eq _ h, loads.called s w]
  refine regulated_configRun (s.tick + 1) (hmode.mpr hauto) ?_
  rcases hcontrolled with hband | ⟨hlo, hhi, hfollows, hreading⟩
  · refine .inl ?_
    rw [priv_pulled]
    exact hband
  · refine .inr ⟨?_, ?_, ?_, ?_⟩
    · rw [priv_pulled]
      exact hlo
    · rw [priv_pulled]
      exact hhi
    · rw [Follows, pulled_qx loader s.dll hauto, priv_pulled]
      exact hfollows
    · rw [priv_pulled, pulled_iw]
      exact hreading

theorem Regulated.safe {s : Plant (Private ℚ)} {w : Interference}
    (h : Regulated (amid loader s w).dll) : Safe s w := by
  obtain ⟨hlo, hhi, hfollows, hreading⟩ := h
  refine ⟨hlo, hhi, ?_, hreading⟩
  rcases hfollows with ⟨hin, hout, -⟩ | ⟨hin, hout, -⟩
  · exact iff_of_true hin hout
  · exact iff_of_false (not_not.mpr hin) hout

/-- From a level between the limits on, every scan in AUTO leaves the tank safe,
whatever clients write in between. -/
theorem mock_level_safe (s : Plant (Private ℚ)) (hnil : s.mem.mappings = [])
    (hphase : s.phase = .inputs) (hlow : 150 ≤ s.dll.priv.levelSim)
    (hhigh : s.dll.priv.levelSim ≤ 850) (script : List Interference)
    (hauto : Loop.Each (amid loader) Auto s script) :
    Loop.Each (amid loader) Safe s script := by
  have hstep (s : Plant (Private ℚ)) (w : Interference) (h : AtScan s ∧ Controlled s.dll)
      (hauto : Auto s w) :
      Safe s w ∧ AtScan (amid loader s w) ∧ Controlled (amid loader s w).dll := by
    have hregulated := regulated_amid h.1 w hauto h.2
    exact ⟨hregulated.safe, h.1.amid _ w, .inr hregulated⟩
  exact Loop.Each.imp hstep ⟨⟨hnil, hphase⟩, .inl ⟨hlow, hhigh⟩⟩ hauto

/-- A client puts the switch to AUTO and forces the outlet. -/
def forced : Interference := ⟨[.coil 1 true, .discreteInput 0 true], [.coil 0 true], []⟩

def tankStart : Plant (Private ℚ) :=
  ⟨PlcMemory.default, ⟨⟨fun _ => 0, fun _ => 1, fun _ => 0, fun _ => 0⟩, ⟨850, 0, 3⟩⟩,
    .inputs, 0⟩

theorem auto_forced {s : Plant (Private ℚ)} (hsize : 0 < s.mem.size .di) : Auto s forced := by
  have hread := PlcMemory.readDiscreteInput_writeDiscreteInput (s.mem.writeCoil 1 true) 0 true
    (by rwa [PlcMemory.writeCoil_eq, PlcMemory.size_set]) 0
  exact hread.trans (if_pos rfl)

/-- Two scans, from the high limit and with both valves open. -/
theorem mock_level_safe_forced :
    Loop.Each (amid loader) Safe tankStart [forced, forced] := by
  have hsize : 0 < tankStart.mem.size .di :=
    (by decide : 0 < 1024).trans_le (PlcMemory.size_default .di).1
  have hlow : (150 : ℚ) ≤ 850 := by norm_num
  refine mock_level_safe tankStart rfl rfl hlow le_rfl [forced, forced] ⟨?_, ?_, trivial⟩
  · exact auto_forced hsize
  · refine auto_forced ?_
    rw [size_amid _ ⟨rfl, rfl⟩]
    exact hsize

end Mock

end VPlc
