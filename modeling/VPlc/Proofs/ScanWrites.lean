import VPlc.Proofs.LoaderSpec

/-!
# Client writes and the scan

A scan copies a bound register into the logic, runs the logic, and copies the
register back. A client that writes the register in between gets its answer and
loses its value: the copy back is of what the logic was given before. The same
goes for a bound coil in MANUAL mode, where the comment at the copy back says it
does no harm.

So a written value stays exactly if the scheduler is about to read its inputs,
or the logic happens to hold the value already (`client_write_kept_iff`). What
carries the proof is `Shows`: the cell holds the value, and so does the logic's
variable unless the inputs are about to be read. One step keeps it
(`shows_exec`), and a scan without it copies the variable over the cell.
-/

namespace VPlc

open PlcScheduler

/-- The event is a write addressed to the cell. -/
def PlcScheduler.Event.Touches (a : Area) (i : Nat) : Event → Prop
  | .step => False
  | .client w => w.Touches a i

/-- The logic never changes what the variable shows. -/
def PlcLoader.Leaves {σ : Type} (L : PlcLoader σ) (t : VarType) (k : UInt16) :
    Prop :=
  ∀ tick d, (L.runLogic tick d).vars.out t k = d.vars.out t k

/-- For a coil: the mode switch is off. -/
def Manual {σ : Type} (t : VarType) (s : Plant σ) : Prop :=
  t = .coil → s.mem.readDiscreteInput 0 = false

namespace PlcScheduler

variable {σ : Type} (L : PlcLoader σ) {s : Plant σ}

/-! ## The three calls -/

theorem step_inputs_eq (h : s.phase = .inputs) :
    step L s =
      ⟨s.mem.syncMappings,
        ⟨PlcLoader.pull L.bindings s.mem.syncMappings s.dll.vars, s.dll.priv⟩, .logic,
        s.tick + 1⟩ := by
  simp only [step, h, PlcLoader.syncInputsToDll]

theorem step_logic (h : s.phase = .logic) :
    step L s = ⟨s.mem, L.runLogic s.tick s.dll, .outputs, s.tick⟩ := by
  simp only [step, h]

theorem step_outputs_eq (h : s.phase = .outputs) :
    step L s = ⟨L.syncOutputsFromDll s.mem s.dll, s.dll, .inputs, s.tick⟩ := by
  simp only [step, h]

/-! ## With no rules -/

theorem step_inputs (hnil : s.mem.mappings = []) (h : s.phase = .inputs) :
    step L s =
      ⟨s.mem, ⟨PlcLoader.pull L.bindings s.mem s.dll.vars, s.dll.priv⟩, .logic,
        s.tick + 1⟩ := by
  rw [step_inputs_eq L h, PlcMemory.syncMappings_of_nil hnil]

theorem step_outputs (hnil : s.mem.mappings = []) (h : s.phase = .outputs) :
    step L s =
      ⟨PlcLoader.push L.bindings s.dll.vars s.mem, s.dll, .inputs, s.tick⟩ := by
  have hpush : (PlcLoader.push L.bindings s.dll.vars s.mem).mappings = [] := by
    rw [PlcLoader.mappings_push, hnil]
  rw [step_outputs_eq L h, PlcLoader.syncOutputsFromDll, PlcMemory.syncMappings_of_nil hpush]

theorem mappings_exec (hnil : s.mem.mappings = []) (e : Event) :
    (exec L s e).mem.mappings = [] := by
  cases e with
  | client w => rw [exec, ClientWrite.mappings_apply, hnil]
  | step =>
      rw [exec]
      cases h : s.phase with
      | inputs => rw [step_inputs L hnil h]; exact hnil
      | logic => rw [step_logic L h]; exact hnil
      | outputs =>
          rw [step_outputs L hnil h]
          exact (PlcLoader.mappings_push _ _ _).trans hnil

theorem size_exec (hnil : s.mem.mappings = []) (e : Event) (a : Area) :
    (exec L s e).mem.size a = s.mem.size a := by
  cases e with
  | client w => rw [exec, ClientWrite.size_apply]
  | step =>
      rw [exec]
      cases h : s.phase with
      | inputs => rw [step_inputs L hnil h]
      | logic => rw [step_logic L h]
      | outputs => rw [step_outputs L hnil h]; exact PlcLoader.size_push _ _ _ a

theorem run_cons (e : Event) (es : List Event) :
    run L s (e :: es) = run L (exec L s e) es := rfl

theorem run_append (es es' : List Event) :
    run L s (es ++ es') = run L (run L s es) es' := List.foldl_append

theorem run_mem (hnil : s.mem.mappings = []) (es : List Event) :
    (run L s es).mem.mappings = [] ∧
      ∀ a, (run L s es).mem.size a = s.mem.size a := by
  induction es generalizing s with
  | nil => exact ⟨hnil, fun _ => rfl⟩
  | cons e es ih =>
      obtain ⟨hmap, hsize⟩ := ih (mappings_exec L hnil e)
      exact ⟨hmap, fun a => (hsize a).trans (size_exec L hnil e a)⟩

theorem forall_prefix_cons {α : Type} {P : List α → Prop} {a : α} {l : List α} :
    (∀ es, es <+: a :: l → P es) ↔ P [] ∧ ∀ es, es <+: l → P (a :: es) := by
  refine ⟨fun h => ⟨h [] List.nil_prefix, fun es hes => h _ ?_⟩, ?_⟩
  · exact List.cons_prefix_cons.mpr ⟨rfl, hes⟩
  · intro h es hes
    rcases List.prefix_cons_iff.mp hes with rfl | ⟨es', rfl, hes'⟩
    · exact h.1
    · exact h.2 es' hes'

/-! ## One cell and its variable -/

variable {t : VarType} {k : UInt16} {v : UInt16}

/-- The cell holds `v`, and the variable does too unless the inputs are about
to be read. -/
def Shows (t : VarType) (k v : UInt16) (s : Plant σ) : Prop :=
  s.mem.get t.area k.toNat = v ∧ (s.phase = .inputs ∨ s.dll.vars.out t k = v)

theorem out_pull {m : PlcMemory} {bs : List VarBinding} (vars : Vars)
    (hkind : t = .coil ∨ t = .holdingRegister) (hbound : ⟨t, k⟩ ∈ bs)
    (hmanual : t = .coil → m.readDiscreteInput 0 = false) :
    (PlcLoader.pull bs m vars).out t k = m.get t.area k.toNat := by
  rcases hkind with rfl | rfl
  · simp only [Vars.out]
    rw [PlcLoader.pull_qx, if_pos ⟨hbound, hmanual rfl⟩, VarType.area,
      ← PlcMemory.readCoil_eq]
    cases m.readCoil k <;> rfl
  · simp only [Vars.out]
    rw [PlcLoader.pull_mw, if_pos hbound]
    rfl

theorem published_of_kind (hkind : t = .coil ∨ t = .holdingRegister) :
    (⟨t, k⟩ : VarBinding).Published := by
  intro hdi
  rcases hkind with rfl | rfl <;> cases hdi

/-- Any step keeps what the cell shows, unless a client writes the cell. -/
theorem shows_exec (hnil : s.mem.mappings = [])
    (hkind : t = .coil ∨ t = .holdingRegister) (hbound : ⟨t, k⟩ ∈ L.bindings)
    (hleaves : L.Leaves t k) (hk : k.toNat < s.mem.size t.area)
    (hmanual : Manual t s) {e : Event} (he : ¬ e.Touches t.area k.toNat)
    (h : Shows t k v s) : Shows t k v (exec L s e) := by
  obtain ⟨hcell, hvar⟩ := h
  cases e with
  | client w => exact ⟨(ClientWrite.get_apply s.mem he).trans hcell, hvar⟩
  | step =>
      rw [exec]
      cases hphase : s.phase with
      | inputs =>
          rw [step_inputs L hnil hphase]
          exact ⟨hcell, Or.inr ((out_pull _ hkind hbound hmanual).trans hcell)⟩
      | logic =>
          have hout : s.dll.vars.out t k = v := by simpa [hphase] using hvar
          rw [step_logic L hphase]
          exact ⟨hcell, Or.inr ((hleaves s.tick s.dll).trans hout)⟩
      | outputs =>
          have hout : s.dll.vars.out t k = v := by simpa [hphase] using hvar
          have hpush := PlcLoader.get_push_of_bound s.dll.vars s.mem L.bindings
            hbound (published_of_kind hkind) hk
          rw [step_outputs L hnil hphase]
          exact ⟨hpush.trans hout, Or.inl rfl⟩

theorem shows_run (hnil : s.mem.mappings = [])
    (hkind : t = .coil ∨ t = .holdingRegister) (hbound : ⟨t, k⟩ ∈ L.bindings)
    (hleaves : L.Leaves t k) (hk : k.toNat < s.mem.size t.area)
    {es : List Event} (hes : ∀ e ∈ es, ¬ e.Touches t.area k.toNat)
    (hmanual : ∀ es', es' <+: es → Manual t (run L s es'))
    (h : Shows t k v s) : Shows t k v (run L s es) := by
  induction es generalizing s with
  | nil => exact h
  | cons e es ih =>
      obtain ⟨hnow, hlater⟩ := forall_prefix_cons.mp hmanual
      refine ih (mappings_exec L hnil e) ?_
        (fun e' he' => hes e' (List.mem_cons_of_mem _ he')) hlater ?_
      · rw [size_exec L hnil e]
        exact hk
      · exact shows_exec L hnil hkind hbound hleaves hk hnow
          (hes e List.mem_cons_self) h

/-- The output sync copies the variable over the cell, and leaves the mode
switch alone. -/
theorem overwritten_outputs (hnil : s.mem.mappings = [])
    (hkind : t = .coil ∨ t = .holdingRegister) (hbound : ⟨t, k⟩ ∈ L.bindings)
    (hk : k.toNat < s.mem.size t.area) (hmanual : Manual t s)
    (hphase : s.phase = .outputs) :
    (step L s).mem.get t.area k.toNat = s.dll.vars.out t k ∧
      Manual t (step L s) := by
  rw [step_outputs L hnil hphase]
  refine ⟨?_, ?_⟩
  · exact PlcLoader.get_push_of_bound _ s.mem L.bindings hbound
      (published_of_kind hkind) hk
  · intro ht
    refine (PlcMemory.readDiscreteInput_congr ?_).trans (hmanual ht)
    exact PlcLoader.get_push_switch s.dll.vars s.mem L.bindings (Or.inl rfl)

/-- Left to itself past the input sync, the scan copies the variable over the
cell. -/
theorem overwritten (hnil : s.mem.mappings = [])
    (hkind : t = .coil ∨ t = .holdingRegister) (hbound : ⟨t, k⟩ ∈ L.bindings)
    (hleaves : L.Leaves t k) (hk : k.toNat < s.mem.size t.area)
    (hmanual : Manual t s) (hphase : s.phase ≠ .inputs) :
    ∃ post, (∀ e ∈ post, e = Event.step) ∧
      (∀ es, es <+: post → Manual t (run L s es)) ∧
      (run L s post).mem.get t.area k.toNat = s.dll.vars.out t k := by
  cases h : s.phase with
  | inputs => exact absurd h hphase
  | outputs =>
      obtain ⟨hcell, hman⟩ :=
        overwritten_outputs L hnil hkind hbound hk hmanual h
      refine ⟨[.step], by simp, ?_, hcell⟩
      simp only [forall_prefix_cons, List.prefix_nil, forall_eq]
      exact ⟨hmanual, hman⟩
  | logic =>
      have hstep := step_logic L h
      obtain ⟨hcell, hman⟩ := overwritten_outputs L (s := step L s)
        (by rw [hstep]; exact hnil) hkind hbound (by rw [hstep]; exact hk)
        (by rw [hstep]; exact hmanual) (by rw [hstep])
      refine ⟨[.step, .step], by simp, ?_, ?_⟩
      · simp only [forall_prefix_cons, List.prefix_nil, forall_eq]
        refine ⟨hmanual, ?_, hman⟩
        show Manual t (step L s)
        rw [hstep]
        exact hmanual
      · refine hcell.trans ?_
        rw [hstep]
        exact hleaves s.tick s.dll

end PlcScheduler

/-- After the run `pre` and the client write `w`, the cell keeps the value it
then holds for as long as no further client write is addressed to it and, if it
is a coil, the mode stays MANUAL. -/
def WriteKept {σ : Type} (L : PlcLoader σ) (t : VarType) (k : UInt16)
    (s₀ : Plant σ) (pre : List Event) (w : ClientWrite) : Prop :=
  ∀ post, (∀ e ∈ post, ¬ e.Touches t.area k.toNat) →
    (∀ es, es <+: post → Manual t (run L s₀ (pre ++ .client w :: es))) →
    (run L s₀ (pre ++ .client w :: post)).mem.get t.area k.toNat =
      (w.apply (run L s₀ pre).mem).get t.area k.toNat

/-- When a client write survives. There are no rules, the cell is a bound
holding register or, in MANUAL, a bound coil, and the logic does not assign its
variable. Any interleaving of the scan's calls and client writes comes before
and after the write in question. -/
theorem client_write_kept_iff {σ : Type} {L : PlcLoader σ} {t : VarType}
    {k : UInt16} (hkind : t = .coil ∨ t = .holdingRegister)
    (hbound : ⟨t, k⟩ ∈ L.bindings) (hleaves : L.Leaves t k) {s₀ : Plant σ}
    (hnil : s₀.mem.mappings = []) (hk : k.toNat < s₀.mem.size t.area)
    (pre : List Event) (w : ClientWrite)
    (hmanual : Manual t (run L s₀ (pre ++ [.client w]))) :
    WriteKept L t k s₀ pre w ↔
      (run L s₀ pre).phase = .inputs ∨
        (run L s₀ pre).dll.vars.out t k =
          (w.apply (run L s₀ pre).mem).get t.area k.toNat := by
  obtain ⟨hmap, hsize⟩ := run_mem L hnil pre
  have hrun : ∀ es, run L s₀ (pre ++ .client w :: es) =
      run L (exec L (run L s₀ pre) (.client w)) es := by
    intro es
    rw [run_append, run_cons]
  unfold WriteKept
  simp only [hrun] at hmanual ⊢
  generalize hs : run L s₀ pre = s at hmap hsize hmanual ⊢
  have hmap' := mappings_exec L hmap (.client w)
  have hk' : k.toNat < (exec L s (.client w)).mem.size t.area := by
    rw [size_exec L hmap, hsize]
    exact hk
  refine ⟨?_, ?_⟩
  · intro hkept
    by_cases hphase : s.phase = .inputs
    · exact Or.inl hphase
    · obtain ⟨post, hsteps, hman, hcell⟩ := overwritten L hmap' hkind hbound
        hleaves hk' hmanual hphase
      refine Or.inr (hcell.symm.trans (hkept post ?_ hman))
      intro e he
      rw [hsteps e he]
      exact id
  · intro h post hpost hman
    have hshows : Shows t k ((w.apply s.mem).get t.area k.toNat)
        (exec L s (.client w)) := ⟨rfl, h⟩
    exact (shows_run L hmap' hkind hbound hleaves hk' hpost hman hshows).1

/-! ## A library with one register -/

/-- It exports `__MW0` and does nothing with it. -/
def registerLibrary : Library Unit where
  hasSymbol name := name == "__MW0"
  initHook _ := none
  runHook name := if name = "config_run__" then some fun _ d => d else none

def registerLoader : PlcLoader Unit :=
  (PlcLoader.loadLibrary (fun _ => some registerLibrary) "mw.so").1

/-- The scheduler about to enter its loop with that library. -/
def registerStart : Plant Unit :=
  PlcScheduler.start registerLoader PlcMemory.default
    ⟨⟨fun _ => 0, fun _ => 0, fun _ => 0, fun _ => 0⟩, ()⟩

theorem registerLoader_bound :
    ⟨.holdingRegister, 0⟩ ∈ registerLoader.bindings := by
  rw [show registerLoader.bindings = [⟨.holdingRegister, 0⟩] from rfl]
  exact List.mem_singleton_self _

theorem registerLoader_leaves : registerLoader.Leaves .holdingRegister 0 :=
  fun _ _ => rfl

theorem registerStart_mem :
    registerStart.mem.mappings = [] ∧ registerStart.mem.size .hr = 1024 := by
  refine ⟨rfl, ?_⟩
  simp only [registerStart, start, PlcLoader.syncOutputsFromDll,
    PlcMemory.size_syncMappings, PlcLoader.size_push]
  exact Array.size_replicate

/-- Written before the input sync, the value stays. -/
theorem client_write_kept_register :
    WriteKept registerLoader .holdingRegister 0 registerStart []
      (.holdingRegister 0 5) :=
  (client_write_kept_iff (Or.inr rfl) registerLoader_bound registerLoader_leaves
    registerStart_mem.1 (registerStart_mem.2 ▸ by decide) [] _
    (fun h => by cases h)).mpr (Or.inl rfl)

set_option maxRecDepth 8192 in
/-- Written after it, the value is gone at the end of the scan. -/
theorem client_write_lost_register :
    ¬ ∀ (L : PlcLoader Unit) (t : VarType) (k : UInt16) (s₀ : Plant Unit)
      (pre : List Event) (w : ClientWrite),
      t = .coil ∨ t = .holdingRegister → ⟨t, k⟩ ∈ L.bindings → L.Leaves t k →
      s₀.mem.mappings = [] → k.toNat < s₀.mem.size t.area →
      w.Touches t.area k.toNat → Manual t (run L s₀ (pre ++ [.client w])) →
      WriteKept L t k s₀ pre w := by
  intro h
  have hkept := h registerLoader .holdingRegister 0 registerStart [.step]
    (.holdingRegister 0 5) (Or.inr rfl) registerLoader_bound
    registerLoader_leaves registerStart_mem.1
    (registerStart_mem.2 ▸ by decide) ⟨rfl, rfl⟩ (fun h => by cases h)
    [.step, .step] (by simp [Event.Touches]) (fun _ _ h => by cases h)
  have hlost : (run registerLoader registerStart
      [.step, .client (.holdingRegister 0 5), .step, .step]).mem.get .hr 0 = 0 := rfl
  have hwrote : ((ClientWrite.holdingRegister 0 5).apply
      (run registerLoader registerStart [.step]).mem).get .hr 0 = 5 := rfl
  exact absurd (hlost.symm.trans (hkept.trans hwrote)) (by decide)

end VPlc
