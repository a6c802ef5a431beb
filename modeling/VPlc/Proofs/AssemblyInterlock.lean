import Mathlib.Data.List.Induction
import Mathlib.Tactic.Linarith
import Mathlib.Tactic.NormNum
import VPlc.Proofs.AssemblySpec

/-!
# The robot's interlock

The arm has to be down when the part counts as taken, and over the station when
the gripper opens. The sequence looks at neither then: it looked one state
earlier, and trusts the coil that brought the arm there to hold it. The light
curtain breaks that trust. It clears the coil, the state does not set it again,
and the arm leaves while the sequence waits for its own sensor.

`Held` is the bargain, with a flag that remembers whether the curtain was
interrupted in the state. It is kept by every scan (`inv_apply`), and read at
the end of the state it tells exactly whether the arm is still there
(`interlock_iff`).
-/

namespace VPlc

namespace Assembly

/-! ## Runs -/

/-- What a scan finds at its inputs. -/
structure Scan where
  tick : UInt64
  auto : UInt8
  curtain : UInt8
  speed : UInt16
  chassis : UInt16
  part : UInt16

namespace Scan

variable {D : Type}

def inputs (s : Scan) (d : Line D) : Line D :=
  d.setIx 0 s.auto |>.setIx 7 s.curtain |>.setMw 1 s.speed |>.setMw 2 s.chassis
    |>.setMw 3 s.part

variable [Double D] [Mul D]

def apply (s : Scan) (d : Line D) : Line D := configRun s.tick (s.inputs d)

end Scan

/-- From the initialization on, scan after scan. -/
def run {D : Type} [Double D] [Mul D] (d : Line D) (scans : List Scan) : Line D :=
  scans.foldl (fun d s => s.apply d) (configInit d)

/-- A run with a watchman, who remembers whether the curtain was interrupted
since the sequence came to its present state. -/
def watch {D : Type} [Double D] [Mul D] (r : Line D × Bool) (s : Scan) : Line D × Bool :=
  let d := s.apply r.1
  (d, decide (d.priv.sfcState = r.1.priv.sfcState ∧ (r.2 = true ∨ s.curtain ≠ 0)))

def interrupted {D : Type} [Double D] [Mul D] (d : Line D) (scans : List Scan) : Bool :=
  (scans.foldl watch (configInit d, false)).2

section Runs

variable {D : Type} [Double D] [Mul D] (d : Line D) (scans : List Scan) (s : Scan)

theorem run_concat : run d (scans ++ [s]) = s.apply (run d scans) := by
  rw [run, List.foldl_append]
  rfl

theorem foldl_watch_fst : (scans.foldl watch (configInit d, false)).1 = run d scans := by
  induction scans using List.reverseRecOn with
  | nil => rfl
  | append_singleton scans s ih => rw [List.foldl_append, run_concat, ← ih]; rfl

theorem interrupted_concat :
    interrupted d (scans ++ [s]) =
      decide ((run d (scans ++ [s])).priv.sfcState = (run d scans).priv.sfcState ∧
        (interrupted d scans = true ∨ s.curtain ≠ 0)) := by
  rw [interrupted, List.foldl_append, run_concat, ← foldl_watch_fst]
  rfl

end Runs

/-! ## Cylinders -/

section Travel

variable {step pos : ℚ}

theorem travel_eq (out : Bool) :
    travel step out pos = min 1 (max 0 (if out then pos + step else pos - step)) := by
  have h0 : (0.0 : ℚ) = 0 := by norm_num
  have h1 : (1.0 : ℚ) = 1 := by norm_num
  simp only [travel, h0, h1]
  obtain ⟨x, hx⟩ : ∃ x, (if out then pos + step else pos - step) = x := ⟨_, rfl⟩
  rw [hx]
  rcases lt_or_ge x 0 with hneg | hpos
  · rw [if_pos hneg, max_eq_left hneg.le, if_neg (by norm_num), min_eq_right (by norm_num)]
  · rw [if_neg (not_lt.mpr hpos), max_eq_right hpos]
    rcases lt_or_ge 1 x with hgt | hle
    · rw [if_pos hgt, min_eq_left hgt.le]
    · rw [if_neg (not_lt.mpr hle), min_eq_right hle]

theorem travel_le (out : Bool) : travel step out pos ≤ 1 := by
  rw [travel_eq]
  exact min_le_left _ _

theorem le_travel (hstep : 0 ≤ step) (h : 0.95 ≤ pos) : 0.95 ≤ travel step true pos := by
  rw [travel_eq, if_pos rfl]
  refine le_min (by norm_num) (le_max_of_le_right ?_)
  linarith

theorem travel_back {b : ℚ} (hb : step ≤ b) (h : pos ≤ b) :
    travel step false pos ≤ b - step := by
  rw [travel_eq, if_neg Bool.false_ne_true]
  refine (min_le_right _ _).trans (max_le ?_ ?_)
  · linarith
  · linarith

/-- A cylinder at its limit is held there by its coil, until the curtain has
been interrupted; then nothing holds it any more. -/
def Held (step : ℚ) (coil : UInt8) (pos : ℚ) (interrupted : Bool) : Prop :=
  if interrupted then coil = 0 ∧ pos ≤ 1 - step else coil ≠ 0 ∧ 0.95 ≤ pos

variable {coil coil' : UInt8} {flag stopped : Bool}

theorem Held.scan (h : Held step coil pos flag) (hstep : 0 ≤ step) (hhalf : step ≤ 1 / 2)
    (hpos : pos ≤ 1) (hcoil : coil' = if stopped then 0 else coil) :
    Held step coil' (travel step (decide (coil' ≠ 0)) pos) (flag || stopped) := by
  have hback : coil' = 0 → pos ≤ 1 → travel step (decide (coil' ≠ 0)) pos ≤ 1 - step := by
    rintro rfl hle
    exact travel_back (by linarith) hle
  cases flag with
  | true =>
      obtain ⟨hoff, -⟩ : coil = 0 ∧ pos ≤ 1 - step := h
      have hoff' : coil' = 0 := by rw [hcoil, hoff, ite_self]
      exact ⟨hoff', hback hoff' hpos⟩
  | false =>
      obtain ⟨hon, hlimit⟩ : coil ≠ 0 ∧ 0.95 ≤ pos := h
      cases stopped with
      | true => exact ⟨hcoil, hback hcoil hpos⟩
      | false =>
          obtain rfl : coil' = coil := hcoil
          refine ⟨hon, ?_⟩
          rw [decide_eq_true hon]
          exact le_travel hstep hlimit

/-- In a scan without an interruption, the cylinder is at its limit just if there
has been none before. -/
theorem Held.limit_iff (h : Held step coil pos flag) (hstep : 1 / 40 < step)
    (hhalf : step ≤ 1 / 2) :
    0.95 ≤ travel step (decide (coil ≠ 0)) pos ↔ flag = false := by
  cases flag with
  | true =>
      obtain ⟨hoff, hpos⟩ : coil = 0 ∧ pos ≤ 1 - step := h
      refine iff_of_false (not_le.mpr ?_) nofun
      rw [hoff]
      have hback : travel step false pos ≤ 1 - step - step :=
        travel_back (by linarith) hpos
      exact hback.trans_lt (by norm_num; linarith)
  | false =>
      obtain ⟨hon, hlimit⟩ : coil ≠ 0 ∧ 0.95 ≤ pos := h
      refine iff_of_true ?_ rfl
      rw [decide_eq_true hon]
      exact le_travel (by linarith) hlimit

end Travel

/-! ## One scan -/

def Scan.stopped (s : Scan) : Bool := decide (s.curtain ≠ 0)

/-- A scan, as far as the interlock goes. -/
structure ScanStep {D : Type} [Double D] (d : Line D) (s : Scan) (d' : Line D) : Prop where
  lift : ∃ out, d'.priv.liftPos = travel 0.04 out d.priv.liftPos
  rotate : ∃ out, d'.priv.rotatePos = travel 0.033 out d.priv.rotatePos
  pick : d'.priv.sfcState = 2 →
    (d.priv.sfcState = 2 ∧ (d'.vars.qx 1 = if s.stopped then 0 else d.vars.qx 1) ∧
        d'.priv.liftPos = travel 0.04 (decide (d'.vars.qx 1 ≠ 0)) d.priv.liftPos) ∨
      (d.priv.sfcState = 1 ∧ d'.vars.qx 1 = 1 ∧ 0.95 ≤ d'.priv.liftPos)
  taken : d.priv.sfcState ≠ 3 → d'.priv.sfcState = 3 → d.priv.sfcState = 2 ∧
    d'.priv.liftPos = travel 0.04 (decide (d.vars.qx 1 ≠ 0)) d.priv.liftPos
  place : d'.priv.sfcState = 5 →
    (d.priv.sfcState = 5 ∧ (d'.vars.qx 3 = if s.stopped then 0 else d.vars.qx 3) ∧
        d'.priv.rotatePos = travel 0.033 (decide (d'.vars.qx 3 ≠ 0)) d.priv.rotatePos) ∨
      (d.priv.sfcState = 4 ∧ d'.vars.qx 3 = 1 ∧ 0.95 ≤ d'.priv.rotatePos)
  release : d.priv.sfcState ≠ 6 → d'.priv.sfcState = 6 → d.priv.sfcState = 5 ∧
    d'.priv.rotatePos = travel 0.033 (decide (d.vars.qx 3 ≠ 0)) d.priv.rotatePos
  manual : s.auto = 0 → d'.priv.sfcState = 0

theorem limit_ne_zero {D : Type} [Double D] {pos : D} (h : limit pos ≠ 0) : 0.95 ≤ pos :=
  sensor_ne_zero.mp h

theorem scan_step {D : Type} [Double D] [Mul D] (s : Scan) (d : Line D) :
    ScanStep d s (s.apply d) := by
  have hsim := simulates (s.inputs d) s.tick
  have hstopped : eStop (s.inputs d) = s.stopped := rfl
  obtain ⟨d₁, hd₁⟩ : ∃ d₁, simulate s.tick (s.inputs d) = d₁ := ⟨_, rfl⟩
  rw [hd₁] at hsim
  obtain ⟨hmode, hstate, hliftCoil, hrotateCoil, hlift, hrotate, hdown, hright⟩ := hsim
  have hauto : d₁.vars.ix 0 = s.auto := hmode
  have hstate : d₁.priv.sfcState = d.priv.sfcState := hstate
  rw [hstopped] at hliftCoil hrotateCoil
  simp only [Scan.apply, configRun, hstopped, hd₁, hauto]
  split
  · next hrun =>
      obtain ⟨hon, hfree⟩ := hrun
      rw [hfree] at hliftCoil hrotateCoil
      have hliftCoil : d₁.vars.qx 1 = d.vars.qx 1 := hliftCoil
      have hrotateCoil : d₁.vars.qx 3 = d.vars.qx 3 := hrotateCoil
      obtain ⟨hlift', hrotate', hpick, htaken, hplace, hrelease⟩ := sequence_step d₁
      rw [hstate] at hpick htaken hplace hrelease
      rw [hdown] at hpick
      rw [hright] at hplace
      have hliftPos : (sequence d₁).priv.liftPos =
          travel 0.04 (decide (d₁.vars.qx 1 ≠ 0)) d.priv.liftPos := hlift'.trans hlift
      have hrotatePos : (sequence d₁).priv.rotatePos =
          travel 0.033 (decide (d₁.vars.qx 3 ≠ 0)) d.priv.rotatePos := hrotate'.trans hrotate
      refine ⟨⟨_, hliftPos⟩, ⟨_, hrotatePos⟩, ?_, ?_, ?_, ?_, fun h => absurd h hon⟩
      · intro h
        rcases hpick h with ⟨h2, hcoil⟩ | ⟨h1, hcoil, hlimit⟩
        · exact Or.inl ⟨h2, by rw [hfree, hcoil, hliftCoil]; rfl, by rw [hcoil, hliftPos]⟩
        · exact Or.inr ⟨h1, hcoil, by rw [hlift']; exact limit_ne_zero hlimit⟩
      · intro hne h
        rcases htaken h with h3 | h2
        · exact absurd h3 hne
        · exact ⟨h2, by rw [hliftPos, hliftCoil]⟩
      · intro h
        rcases hplace h with ⟨h5, hcoil⟩ | ⟨h4, hcoil, hlimit⟩
        · exact Or.inl ⟨h5, by rw [hfree, hcoil, hrotateCoil]; rfl, by rw [hcoil, hrotatePos]⟩
        · exact Or.inr ⟨h4, hcoil, by rw [hrotate']; exact limit_ne_zero hlimit⟩
      · intro hne h
        rcases hrelease h with h6 | h5
        · exact absurd h6 hne
        · exact ⟨h5, by rw [hrotatePos, hrotateCoil]⟩
  · next hrun =>
      split
      · exact ⟨⟨_, hlift⟩, ⟨_, hrotate⟩, nofun, nofun, nofun, nofun, fun _ => rfl⟩
      · next hon =>
          refine ⟨⟨_, hlift⟩, ⟨_, hrotate⟩, ?_, ?_, ?_, ?_, fun h => absurd h hon⟩
          · intro h
            exact Or.inl ⟨hstate ▸ h, hliftCoil, hlift⟩
          · intro hne h
            exact absurd (hstate ▸ h) hne
          · intro h
            exact Or.inl ⟨hstate ▸ h, hrotateCoil, hrotate⟩
          · intro hne h
            exact absurd (hstate ▸ h) hne

/-! ## The invariant -/

/-- What a run keeps, with the watchman's flag. -/
structure Inv (d : Line ℚ) (flag : Bool) : Prop where
  lift_le : d.priv.liftPos ≤ 1
  rotate_le : d.priv.rotatePos ≤ 1
  pick : d.priv.sfcState = 2 → Held 0.04 (d.vars.qx 1) d.priv.liftPos flag
  place : d.priv.sfcState = 5 → Held 0.033 (d.vars.qx 3) d.priv.rotatePos flag

theorem watch_eq {k k' : Nat} (flag : Bool) (s : Scan) :
    decide (k' = k ∧ (flag = true ∨ s.curtain ≠ 0)) =
      if k' = k then flag || s.stopped else false := by
  by_cases h : k' = k
  · rw [if_pos h, Scan.stopped]
    simp [h]
  · rw [if_neg h, decide_eq_false (fun hand => h hand.1)]

theorem inv_apply {d : Line ℚ} {flag : Bool} (h : Inv d flag) (s : Scan) :
    Inv (s.apply d) (decide ((s.apply d).priv.sfcState = d.priv.sfcState ∧
      (flag = true ∨ s.curtain ≠ 0))) := by
  have hstep := scan_step s d
  obtain ⟨d', hd'⟩ : ∃ d', s.apply d = d' := ⟨_, rfl⟩
  rw [hd'] at hstep ⊢
  rw [watch_eq]
  refine ⟨?_, ?_, ?_, ?_⟩
  · obtain ⟨out, hlift⟩ := hstep.lift
    rw [hlift]
    exact travel_le out
  · obtain ⟨out, hrotate⟩ := hstep.rotate
    rw [hrotate]
    exact travel_le out
  · intro hstate
    rcases hstep.pick hstate with ⟨h2, hcoil, hlift⟩ | ⟨h1, hcoil, hlimit⟩
    · rw [if_pos (hstate.trans h2.symm), hlift]
      exact (h.pick h2).scan (by norm_num) (by norm_num) h.lift_le hcoil
    · rw [if_neg (by omega), hcoil]
      exact ⟨by decide, hlimit⟩
  · intro hstate
    rcases hstep.place hstate with ⟨h5, hcoil, hrotate⟩ | ⟨h4, hcoil, hlimit⟩
    · rw [if_pos (hstate.trans h5.symm), hrotate]
      exact (h.place h5).scan (by norm_num) (by norm_num) h.rotate_le hcoil
    · rw [if_neg (by omega), hcoil]
      exact ⟨by decide, hlimit⟩

theorem inv_run (d : Line ℚ) (scans : List Scan) :
    Inv (run d scans) (interrupted d scans) := by
  induction scans using List.reverseRecOn with
  | nil =>
      have hpos : (0.0 : ℚ) ≤ 1 := by norm_num
      exact ⟨hpos, hpos, nofun, nofun⟩
  | append_singleton scans s ih =>
      rw [interrupted_concat, run_concat]
      exact inv_apply ih s

/-! ## The interlock -/

/-- A scan that comes to the release has the arm over the station, and one that
takes the part has it down. -/
structure Interlock (d d' : Line ℚ) : Prop where
  release : d.priv.sfcState ≠ 6 → d'.priv.sfcState = 6 → 0.95 ≤ d'.priv.rotatePos
  taken : d.priv.sfcState ≠ 3 → d'.priv.sfcState = 3 → 0.95 ≤ d'.priv.liftPos

/-- The scan comes to one of the two states. -/
def Enters (d d' : Line ℚ) : Prop :=
  (d.priv.sfcState ≠ 6 ∧ d'.priv.sfcState = 6) ∨ (d.priv.sfcState ≠ 3 ∧ d'.priv.sfcState = 3)

theorem interlock_iff (d : Line ℚ) (scans : List Scan) (s : Scan) :
    Interlock (run d scans) (run d (scans ++ [s])) ↔
      (Enters (run d scans) (run d (scans ++ [s])) → interrupted d scans = false) := by
  have hinv := inv_run d scans
  obtain ⟨d₁, hd₁⟩ : ∃ d₁, run d scans = d₁ := ⟨_, rfl⟩
  have hstep := scan_step s d₁
  rw [run_concat, hd₁]
  rw [hd₁] at hinv
  obtain ⟨d', hd'⟩ : ∃ d', s.apply d₁ = d' := ⟨_, rfl⟩
  rw [hd'] at hstep ⊢
  have hrelease : d₁.priv.sfcState ≠ 6 → d'.priv.sfcState = 6 →
      (0.95 ≤ d'.priv.rotatePos ↔ interrupted d scans = false) := by
    intro hne h
    obtain ⟨h5, hrotate⟩ := hstep.release hne h
    rw [hrotate]
    exact (hinv.place h5).limit_iff (by norm_num) (by norm_num)
  have htaken : d₁.priv.sfcState ≠ 3 → d'.priv.sfcState = 3 →
      (0.95 ≤ d'.priv.liftPos ↔ interrupted d scans = false) := by
    intro hne h
    obtain ⟨h2, hlift⟩ := hstep.taken hne h
    rw [hlift]
    exact (hinv.pick h2).limit_iff (by norm_num) (by norm_num)
  constructor
  · rintro ⟨h6, h3⟩ (⟨hne, h⟩ | ⟨hne, h⟩)
    · exact (hrelease hne h).mp (h6 hne h)
    · exact (htaken hne h).mp (h3 hne h)
  · intro hflag
    exact ⟨fun hne h => (hrelease hne h).mpr (hflag (Or.inl ⟨hne, h⟩)),
      fun hne h => (htaken hne h).mpr (hflag (Or.inr ⟨hne, h⟩))⟩

/-- The curtain is interrupted, in AUTO, in a state that trusts a coil it does
not set: while the part is clamped, or lowered over the station. -/
def Interrupts (d : Line ℚ) (s : Scan) : Prop :=
  s.auto ≠ 0 ∧ s.curtain ≠ 0 ∧ (d.priv.sfcState = 2 ∨ d.priv.sfcState = 5)

theorem interrupted_eq_false {d : Line ℚ} {scans : List Scan}
    (h : ∀ pre s, pre ++ [s] <+: scans → ¬ Interrupts (run d pre) s)
    (hstate : (run d scans).priv.sfcState = 2 ∨ (run d scans).priv.sfcState = 5) :
    interrupted d scans = false := by
  induction scans using List.reverseRecOn with
  | nil => rfl
  | append_singleton scans s ih =>
      rw [interrupted_concat, watch_eq]
      split
      · next hsame =>
          rw [hsame] at hstate
          rw [ih (fun pre s' hpre => h pre s' (hpre.trans (List.prefix_append _ _))) hstate,
            Bool.false_or, Scan.stopped]
          refine decide_eq_false fun hcurtain => ?_
          refine h scans s (List.prefix_refl _) ⟨fun hauto => ?_, hcurtain, hstate⟩
          have hzero := (scan_step s (run d scans)).manual hauto
          rw [run_concat] at hsame
          omega
      · rfl

/-- In every run in which the curtain is left alone in those two states, the
interlock holds at every scan. And whatever the run, a scan that takes the part
or comes to the release keeps it exactly if the curtain has not been interrupted
since the sequence came to the state before. -/
theorem assembly_interlock (d : Line ℚ) (scans : List Scan) :
    ((∀ pre s, pre ++ [s] <+: scans → ¬ Interrupts (run d pre) s) →
      ∀ pre s, pre ++ [s] <+: scans → Interlock (run d pre) (run d (pre ++ [s]))) ∧
    ∀ pre s, Enters (run d pre) (run d (pre ++ [s])) →
      (Interlock (run d pre) (run d (pre ++ [s])) ↔ interrupted d pre = false) := by
  refine ⟨fun h pre s hpre => ?_, fun pre s henters => ?_⟩
  · have hstep := scan_step s (run d pre)
    rw [← run_concat] at hstep
    have hquiet : ∀ pre' s', pre' ++ [s'] <+: pre → ¬ Interrupts (run d pre') s' :=
      fun pre' s' hpre' => h pre' s' (hpre'.trans ((List.prefix_append _ _).trans hpre))
    refine (interlock_iff d pre s).mpr fun henters => ?_
    rcases henters with ⟨hne, h6⟩ | ⟨hne, h3⟩
    · exact interrupted_eq_false hquiet (Or.inr (hstep.release hne h6).1)
    · exact interrupted_eq_false hquiet (Or.inl (hstep.taken hne h3).1)
  · exact (interlock_iff d pre s).trans ⟨fun h => h henters, fun h _ => h⟩

/-! ## A hand in the curtain -/

/-- The library as it is loaded. -/
def assemblyLine : Line ℚ :=
  ⟨⟨fun _ => 0, fun _ => 0, fun _ => 0, fun _ => 0⟩, ⟨0, 0, 0, 0, 0, 0⟩⟩

/-- A scan in AUTO at 25000 mm/s. -/
def autoScan (curtain : UInt8) (chassis : UInt16) : Scan := ⟨1, 1, curtain, 25000, chassis, 0⟩

/-- A chassis is sent in, and the arm goes down for its part. While the clamp
closes, the curtain is interrupted for one scan. -/
def handAtPick : List Scan :=
  autoScan 0 1 :: List.replicate 27 (autoScan 0 0) ++
    autoScan 1 0 :: List.replicate 8 (autoScan 0 0)

/-- When the clamp has closed, the lift is on its way up, at `0.6`. -/
theorem assembly_interlock_fails :
    ¬ ∀ (d : Line ℚ) (pre : List Scan) (s : Scan),
      Interlock (run d pre) (run d (pre ++ [s])) := by
  intro h
  have hlift := (h assemblyLine handAtPick (autoScan 0 0)).taken (by decide +kernel)
    (by decide +kernel)
  revert hlift
  decide +kernel

end Assembly

end VPlc
