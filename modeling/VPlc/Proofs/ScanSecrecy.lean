import VPlc.Proofs.ScanWrites

/-!
# What clients can tell the logic in AUTO

In AUTO mode the input sync reads the mode switch, the safety curtain and the
bound holding registers, and nothing else. Two runs that agree on these at every
input sync give the logic the same inputs, so it does the same in both, whatever
clients write to coils, sensors and input registers in the meantime.

The statement is about two runs and two memories; the invariant is that the two
plants differ in their memories alone (`Alike`). One turn keeps it, and so does
a script of turns.
-/

namespace VPlc

namespace PlcScheduler

variable {σ : Type}

/-- What clients write, and then the scheduler's next call. -/
def turn (L : PlcLoader σ) (s : Plant σ) (ws : List ClientWrite) : Plant σ :=
  run L s (ws.map Event.client ++ [.step])

def turns (L : PlcLoader σ) (s : Plant σ) (script : List (List ClientWrite)) :
    Plant σ :=
  script.foldl (turn L) s

/-- Both memories are in AUTO, and they agree on what is read then. -/
structure AutoAgree (L : PlcLoader σ) (m₁ m₂ : PlcMemory) : Prop where
  auto₁ : m₁.readDiscreteInput 0 = true
  auto₂ : m₂.readDiscreteInput 0 = true
  curtain : m₁.readDiscreteInput 7 = m₂.readDiscreteInput 7
  registers : ∀ k, ⟨.holdingRegister, k⟩ ∈ L.bindings →
    m₁.readHoldingRegister k = m₂.readHoldingRegister k

/-- The two runs of the script agree whenever the inputs are read. -/
def AgreeAtInputs (L : PlcLoader σ) (s₁ s₂ : Plant σ) :
    List (List ClientWrite × List ClientWrite) → Prop
  | [] => True
  | (ws₁, ws₂) :: script =>
      (s₁.phase = .inputs →
        AutoAgree L (s₁.mem.clientWrites ws₁) (s₂.mem.clientWrites ws₂)) ∧
      AgreeAtInputs L (turn L s₁ ws₁) (turn L s₂ ws₂) script

/-- The plants differ in their memories alone, and there are no rules. -/
structure Alike (s₁ s₂ : Plant σ) : Prop where
  dll : s₁.dll = s₂.dll
  phase : s₁.phase = s₂.phase
  tick : s₁.tick = s₂.tick
  nil₁ : s₁.mem.mappings = []
  nil₂ : s₂.mem.mappings = []

variable (L : PlcLoader σ)

theorem run_clients (s : Plant σ) (ws : List ClientWrite) :
    run L s (ws.map Event.client) = { s with mem := s.mem.clientWrites ws } := by
  induction ws generalizing s with
  | nil => rfl
  | cons w ws ih => rw [List.map_cons, run_cons, ih]; rfl

theorem turn_eq (s : Plant σ) (ws : List ClientWrite) :
    turn L s ws = step L { s with mem := s.mem.clientWrites ws } := by
  rw [turn, run_append, run_clients]
  rfl

theorem turns_scan {s : Plant σ} (hnil : s.mem.mappings = [])
    (hphase : s.phase = .inputs) (ws ws₁ ws₂ : List ClientWrite) :
    turns L s [ws, ws₁, ws₂] =
      let m := s.mem.clientWrites ws
      let d := L.runLogic (s.tick + 1)
        ⟨PlcLoader.pull L.bindings m s.dll.vars, s.dll.priv⟩
      ⟨PlcLoader.push L.bindings d.vars ((m.clientWrites ws₁).clientWrites ws₂), d,
        .inputs, s.tick + 1⟩ := by
  simp only [turns, List.foldl_cons, List.foldl_nil, turn_eq]
  have hinputs := step_inputs L (s := { s with mem := s.mem.clientWrites ws })
    (by simp [hnil]) hphase
  rw [hinputs, step_logic L (s := ⟨_, _, .logic, _⟩) rfl,
    step_outputs L (s := ⟨_, _, .outputs, _⟩) (by simp [hnil]) rfl]

/-- Agreeing memories give the logic the same inputs. -/
theorem pull_of_autoAgree {m₁ m₂ : PlcMemory} (h : AutoAgree L m₁ m₂)
    (v : Vars) :
    PlcLoader.pull L.bindings m₁ v = PlcLoader.pull L.bindings m₂ v := by
  have hauto := h.auto₁.trans h.auto₂.symm
  refine Vars.ext ?_ ?_ ?_ ?_
  · funext k
    rw [PlcLoader.pull_ix, PlcLoader.pull_ix]
    split
    · next hk =>
        rcases hk.2 with rfl | rfl
        · rw [hauto]
        · rw [h.curtain]
    · rfl
  · funext k
    rw [PlcLoader.pull_qx, PlcLoader.pull_qx, h.auto₁, h.auto₂]
    simp
  · rw [PlcLoader.pull_iw, PlcLoader.pull_iw]
  · funext k
    rw [PlcLoader.pull_mw, PlcLoader.pull_mw]
    split
    · next hk => exact h.registers k hk
    · rfl

theorem Alike.clients {s₁ s₂ : Plant σ} (h : Alike s₁ s₂)
    (ws₁ ws₂ : List ClientWrite) :
    Alike { s₁ with mem := s₁.mem.clientWrites ws₁ }
      { s₂ with mem := s₂.mem.clientWrites ws₂ } :=
  ⟨h.dll, h.phase, h.tick, by simp [h.nil₁], by simp [h.nil₂]⟩

theorem Alike.step {s₁ s₂ : Plant σ} (h : Alike s₁ s₂)
    (hagree : s₁.phase = .inputs → AutoAgree L s₁.mem s₂.mem) :
    Alike (step L s₁) (step L s₂) := by
  have hphase₂ := h.phase.symm
  cases hphase : s₁.phase with
  | inputs =>
      rw [hphase] at hphase₂
      rw [step_inputs L h.nil₁ hphase, step_inputs L h.nil₂ hphase₂]
      refine ⟨?_, rfl, congrArg (· + 1) h.tick, h.nil₁, h.nil₂⟩
      show LogicState.mk _ _ = LogicState.mk _ _
      rw [h.dll, pull_of_autoAgree L (hagree hphase)]
  | logic =>
      rw [hphase] at hphase₂
      rw [step_logic L hphase, step_logic L hphase₂]
      refine ⟨?_, rfl, h.tick, h.nil₁, h.nil₂⟩
      show L.runLogic _ _ = L.runLogic _ _
      rw [h.dll, h.tick]
  | outputs =>
      rw [hphase] at hphase₂
      rw [step_outputs L h.nil₁ hphase, step_outputs L h.nil₂ hphase₂]
      refine ⟨h.dll, rfl, h.tick, ?_, ?_⟩
      · exact (PlcLoader.mappings_push _ _ _).trans h.nil₁
      · exact (PlcLoader.mappings_push _ _ _).trans h.nil₂

theorem Alike.turn {s₁ s₂ : Plant σ} (h : Alike s₁ s₂)
    {ws₁ ws₂ : List ClientWrite}
    (hagree : s₁.phase = .inputs →
      AutoAgree L (s₁.mem.clientWrites ws₁) (s₂.mem.clientWrites ws₂)) :
    Alike (turn L s₁ ws₁) (turn L s₂ ws₂) := by
  rw [turn_eq, turn_eq]
  exact (h.clients ws₁ ws₂).step L hagree

theorem Alike.turns {s₁ s₂ : Plant σ} (h : Alike s₁ s₂)
    {script : List (List ClientWrite × List ClientWrite)}
    (hagree : AgreeAtInputs L s₁ s₂ script) (n : Nat) :
    Alike (turns L s₁ ((script.take n).map Prod.fst))
      (turns L s₂ ((script.take n).map Prod.snd)) := by
  induction script generalizing s₁ s₂ n with
  | nil => rw [List.take_nil]; exact h
  | cons ws script ih =>
      cases n with
      | zero => exact h
      | succ n => exact ih (h.turn L hagree.1) hagree.2 n

end PlcScheduler

open PlcScheduler

/-- Noninterference in AUTO. Two runs start from the same logic state at the
same point of the cycle, on any two memories without rules, and clients write
what they like in each. If both are in AUTO at every input sync and agree there
on the safety curtain and the bound holding registers, the logic's variables and
its private state are the same in both after every step. -/
theorem auto_noninterference {σ : Type} (L : PlcLoader σ) {s₁ s₂ : Plant σ}
    (hdll : s₁.dll = s₂.dll) (hphase : s₁.phase = s₂.phase)
    (htick : s₁.tick = s₂.tick) (hnil₁ : s₁.mem.mappings = [])
    (hnil₂ : s₂.mem.mappings = [])
    (script : List (List ClientWrite × List ClientWrite))
    (hagree : AgreeAtInputs L s₁ s₂ script) (n : Nat) :
    (turns L s₁ ((script.take n).map Prod.fst)).dll =
      (turns L s₂ ((script.take n).map Prod.snd)).dll :=
  ((⟨hdll, hphase, htick, hnil₁, hnil₂⟩ : Alike s₁ s₂).turns L hagree n).dll

/-- The one-register library in AUTO. -/
def registerAuto : Plant Unit :=
  { registerStart with mem := PlcMemory.default.writeDiscreteInput 0 true }

theorem registerAuto_nil : registerAuto.mem.mappings = [] := rfl

set_option maxRecDepth 16384 in
theorem registerAuto_mode : registerAuto.mem.readDiscreteInput 0 = true := rfl

theorem registerAuto_agree :
    AutoAgree registerLoader (registerAuto.mem.clientWrites [.coil 3 true])
      (registerAuto.mem.clientWrites [.inputRegister 2 9]) := by
  have hread : ∀ w : ClientWrite, (∀ i, ¬ w.Touches .di i) → ∀ k,
      (registerAuto.mem.clientWrites [w]).readDiscreteInput k =
        registerAuto.mem.readDiscreteInput k := by
    intro w hw k
    refine PlcMemory.readDiscreteInput_congr (PlcMemory.get_clientWrites _ ?_)
    exact List.forall_mem_singleton.mpr (hw k.toNat)
  have hcoil := hread (.coil 3 true) (by simp [ClientWrite.Touches])
  have hreg := hread (.inputRegister 2 9) (by simp [ClientWrite.Touches])
  refine ⟨(hcoil 0).trans registerAuto_mode, (hreg 0).trans registerAuto_mode,
    (hcoil 7).trans (hreg 7).symm, ?_⟩
  intro k _
  rw [PlcMemory.readHoldingRegister_eq, PlcMemory.readHoldingRegister_eq,
    PlcMemory.get_clientWrites _ (by simp [ClientWrite.Touches]),
    PlcMemory.get_clientWrites _ (by simp [ClientWrite.Touches])]

/-- A coil written in one run and an input register in the other. -/
theorem auto_noninterference_register :
    (turns registerLoader registerAuto [[.coil 3 true], [], []]).dll =
      (turns registerLoader registerAuto [[.inputRegister 2 9], [], []]).dll :=
  auto_noninterference registerLoader rfl rfl rfl registerAuto_nil registerAuto_nil
    [([.coil 3 true], [.inputRegister 2 9]), ([], []), ([], [])]
    ⟨fun _ => registerAuto_agree, nofun, nofun, trivial⟩ 3

end VPlc
