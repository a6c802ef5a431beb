import VPlc.Core.Scheduler
import VPlc.Loop.Fold
import VPlc.Loop.Progress
import VPlc.Proofs.LogicScans

/-!
# What a logic keeps, and what it gets done

A loaded logic is called once in every scan, on what the input sync makes of its
variables. The calls of the scheduler in between, and the writes of clients, may
come in any number and order, and they do not touch it. So what is to be shown of
a run comes down to two steps, the sync and the call: what they keep, the run keeps
(`Scans.run`), and where each call leaves the logic less to do, the run comes to the
goal (`Advances.exists_goal`). `P` is what is asked of the memories that the input
syncs read.
-/

namespace VPlc

namespace PlcScheduler

open Loop (Each)

variable {σ : Type} {L : PlcLoader σ} {P : PlcMemory → Prop} {I J : LogicState σ → Prop}

/-- The plant after whatever has happened. -/
def plantAfter (L : PlcLoader σ) (m : PlcMemory) (d : LogicState σ) (es : List Event) :
    Plant σ := run L (start L m d) es

@[simp] theorem plantAfter_nil (m : PlcMemory) (d : LogicState σ) :
    plantAfter L m d [] = start L m d := rfl

/-- If this is an input sync, it reads a memory with `P`. -/
def Reads (P : PlcMemory → Prop) (s : Plant σ) (e : Event) : Prop :=
  e = .step → s.phase = .inputs → P s.mem.syncMappings

/-- If this is an input sync, it finds AUTO. -/
def StaysAuto : Plant σ → Event → Prop := Reads (·.readDiscreteInput 0 = true)

theorem Reads.and {P Q : PlcMemory → Prop} {s : Plant σ} {es : List Event}
    (h : Each (exec L) (Reads P) s es) (h' : Each (exec L) (Reads Q) s es) :
    Each (exec L) (Reads fun m => P m ∧ Q m) s es := by
  refine (h.and h').imp (I := fun _ => True) (fun s e _ hboth => ⟨?_, trivial⟩) trivial
  exact fun hstep hinputs => ⟨hboth.1 hstep hinputs, hboth.2 hstep hinputs⟩

/-! ## What the scans keep -/

/-- An input sync takes the library from `I` to `J`, and the call takes it back. -/
structure Scans (L : PlcLoader σ) (P : PlcMemory → Prop) (I J : LogicState σ → Prop) :
    Prop where
  inputs : ∀ {d m}, I d → P m → J (pulled L m d)
  logic : ∀ {d} tick, J d → I (L.runLogic tick d)

/-- `J` where the call is next, and `I` everywhere else. -/
structure Around (I J : LogicState σ → Prop) (s : Plant σ) : Prop where
  call : s.phase = .logic → J s.dll
  rest : s.phase ≠ .logic → I s.dll

theorem Around.of_rest {s : Plant σ} (hphase : s.phase ≠ .logic) (h : I s.dll) : Around I J s :=
  ⟨fun hlogic => absurd hlogic hphase, fun _ => h⟩

theorem Around.of_call {s : Plant σ} (hphase : s.phase = .logic) (h : J s.dll) : Around I J s :=
  ⟨fun _ => h, fun hne => absurd hphase hne⟩

theorem Around.always {s : Plant σ} (h : Around I I s) : I s.dll := by
  by_cases hphase : s.phase = .logic
  · exact h.call hphase
  · exact h.rest hphase

theorem Scans.exec (h : Scans L P I J) {s : Plant σ} (hs : Around I J s) {e : Event}
    (hreads : Reads P s e) : Around I J (PlcScheduler.exec L s e) := by
  cases e with
  | client w => exact ⟨hs.call, hs.rest⟩
  | step =>
      rw [PlcScheduler.exec]
      cases hphase : s.phase with
      | inputs =>
          have hrest := hs.rest (by rw [hphase]; decide)
          rw [step_inputs_eq L hphase]
          exact .of_call rfl (h.inputs hrest (hreads rfl hphase))
      | logic =>
          rw [step_logic L hphase]
          exact .of_rest (by simp) (h.logic s.tick (hs.call hphase))
      | outputs =>
          rw [step_outputs_eq L hphase]
          exact .of_rest (by simp) (hs.rest (by rw [hphase]; decide))

theorem Scans.run (h : Scans L P I J) {s : Plant σ} (hs : Around I J s) {es : List Event}
    (hreads : Each (PlcScheduler.exec L) (Reads P) s es) :
    Around I J (PlcScheduler.run L s es) :=
  hreads.foldl (fun _ _ hs hreads => h.exec hs hreads) hs

theorem around_start {d : LogicState σ} (hinit : I (L.initLogic d)) (m : PlcMemory) :
    Around I J (start L m d) := .of_rest (by simp [start]) hinit

/-- Where nothing is asked of the memories, every run keeps it. -/
theorem Scans.plantAfter (h : Scans L (fun _ => True) I J) {d : LogicState σ}
    (hinit : I (L.initLogic d)) (m : PlcMemory) (es : List Event) :
    Around I J (plantAfter L m d es) :=
  Loop.foldl_inv (I := Around I J) (fun _ _ hs => h.exec hs fun _ _ => trivial) es
    (around_start hinit m)

/-! ## What it gets done -/

/-- The scheduler is about to make a call with `goal`. -/
def Calls (goal : UInt64 → LogicState σ → Prop) (s : Plant σ) : Prop :=
  s.phase = .logic ∧ goal s.tick s.dll

/-- `left` is what the logic still has to do, in calls. An input sync does not add to
it, and a call takes one off, if it does not come to the goal. -/
structure Advances (L : PlcLoader σ) (P : PlcMemory → Prop) (I J : LogicState σ → Prop)
    (goal : UInt64 → LogicState σ → Prop) (left : LogicState σ → Nat) : Prop where
  inputs : ∀ {d m}, I d → P m → J (pulled L m d) ∧ left (pulled L m d) ≤ left d
  logic : ∀ {d} tick, J d → ¬ goal tick d →
    I (L.runLogic tick d) ∧ left (L.runLogic tick d) + 1 ≤ left d

/-- The calls of the scheduler until the goal, at most. -/
def callsLeft (left : LogicState σ → Nat) (s : Plant σ) : Nat :=
  3 * left s.dll +
    match s.phase with
    | .inputs => 1
    | .logic => 0
    | .outputs => 2

variable {goal : UInt64 → LogicState σ → Prop} {left : LogicState σ → Nat}

theorem Advances.countdown (h : Advances L P I J goal left) :
    Loop.Countdown (PlcScheduler.exec L) (Reads P) (fun s e => e = .step ∧ Calls goal s)
      (Around I J) (· == .step) (callsLeft left) := by
  have hstep {s : Plant σ} {e : Event} (hs : Around I J s) (hreads : Reads P s e)
      (hgoal : ¬ (e = .step ∧ Calls goal s)) :
      Around I J (PlcScheduler.exec L s e) ∧
        callsLeft left (PlcScheduler.exec L s e) + (if e == .step then 1 else 0) ≤
          callsLeft left s := by
    cases e with
    | client w => exact ⟨⟨hs.call, hs.rest⟩, le_refl _⟩
    | step =>
        rw [PlcScheduler.exec]
        cases hphase : s.phase with
        | inputs =>
            obtain ⟨hcall, hless⟩ :=
              h.inputs (hs.rest (by rw [hphase]; decide)) (hreads rfl hphase)
            rw [step_inputs_eq L hphase]
            refine ⟨.of_call rfl hcall, ?_⟩
            simp only [callsLeft, hphase]
            show 3 * left (pulled L s.mem.syncMappings s.dll) + 0 + 1 ≤ _
            omega
        | logic =>
            have hshort : ¬ goal s.tick s.dll := fun hmeets => hgoal ⟨rfl, hphase, hmeets⟩
            obtain ⟨hrest, hless⟩ := h.logic s.tick (hs.call hphase) hshort
            rw [step_logic L hphase]
            refine ⟨.of_rest (by simp) hrest, ?_⟩
            simp only [callsLeft, hphase]
            show 3 * left (L.runLogic s.tick s.dll) + 2 + 1 ≤ _
            omega
        | outputs =>
            rw [step_outputs_eq L hphase]
            refine ⟨.of_rest (by simp) (hs.rest (by rw [hphase]; decide)), ?_⟩
            simp only [callsLeft, hphase]
            exact le_refl _
  exact ⟨fun hs hreads hgoal => (hstep hs hreads hgoal).1,
    fun hs hreads hgoal => (hstep hs hreads hgoal).2⟩

/-- A run with scans enough comes to the goal. -/
theorem Advances.exists_goal (h : Advances L P I J goal left) {s : Plant σ} (hs : I s.dll)
    (hphase : s.phase = .inputs) {es : List Event}
    (hreads : Each (PlcScheduler.exec L) (Reads P) s es)
    (hmany : 3 * left s.dll + 1 < es.count .step) :
    ∃ before after, es = before ++ .step :: after ∧ Calls goal (PlcScheduler.run L s before) := by
  have hstarts : Around I J s := .of_rest (by rw [hphase]; decide) hs
  obtain ⟨before, e, after, hsplit, rfl, hmeets⟩ :=
    Loop.exists_goal h.countdown hstarts hreads (by
      rw [List.count] at hmany
      simp only [callsLeft, hphase]
      exact hmany)
  exact ⟨before, after, hsplit, hmeets⟩

/-! ## Clients that hold their writes -/

/-- Clients write, and then the scheduler makes a scan. -/
def heldScan (ws : List ClientWrite) : List Event :=
  ws.map Event.client ++ [.step, .step, .step]

theorem atScan_start (L : PlcLoader σ) {m : PlcMemory} (hnil : m.mappings = [])
    (d : LogicState σ) :
    AtScan (start L m d) ∧ ∀ a, (start L m d).mem.size a = m.size a := by
  obtain ⟨m', hm'⟩ : ∃ m', PlcLoader.push L.bindings (L.initLogic d).vars m = m' := ⟨_, rfl⟩
  have hpushed : m'.mappings = [] := by
    rw [← hm', PlcLoader.mappings_push, hnil]
  have hmem : (start L m d).mem = m' := by
    show (PlcLoader.push L.bindings (L.initLogic d).vars m).syncMappings = m'
    rw [hm', PlcMemory.syncMappings_of_nil hpushed]
  refine ⟨⟨hmem ▸ hpushed, rfl⟩, fun a => ?_⟩
  rw [hmem, ← hm', PlcLoader.size_push]

theorem foldl_heldScan (L : PlcLoader σ) (s : Plant σ) (ws : List ClientWrite) :
    (heldScan ws).foldl (exec L) s = amid L s ⟨ws, [], []⟩ := by
  have hbegins : (ws.map Event.client).foldl (exec L) s =
      { s with mem := s.mem.clientWrites ws } := run_clients L s ws
  simp only [amid, turns, List.foldl_cons, List.foldl_nil, turn_eq]
  rw [heldScan, List.foldl_append, hbegins]
  rfl

theorem heldScan_reads (L : PlcLoader σ) (ws : List ClientWrite) {s : Plant σ} (h : AtScan s)
    (hwritten : P (s.mem.clientWrites ws)) :
    Each (exec L) (Reads P) s (heldScan ws) ∧ AtScan ((heldScan ws).foldl (exec L) s) ∧
      ∀ a, ((heldScan ws).foldl (exec L) s).mem.size a = s.mem.size a := by
  have hclients (ws : List ClientWrite) (s : Plant σ) :
      Each (exec L) (Reads P) s (ws.map Event.client) := by
    induction ws generalizing s with
    | nil => trivial
    | cons w ws ih => exact ⟨nofun, ih _⟩
  obtain ⟨held, hheld⟩ : ∃ held, ({ s with mem := s.mem.clientWrites ws } : Plant σ) = held :=
    ⟨_, rfl⟩
  have hbegins : (ws.map Event.client).foldl (exec L) s = held :=
    (run_clients L s ws).trans hheld
  have hinputs : held.phase = .inputs := hheld ▸ h.phase
  have hlogic : (step L held).phase = .logic := by
    rw [step_inputs_eq L hinputs]
  have houtputs : (step L (step L held)).phase = .outputs := by
    rw [step_logic L hlogic]
  have hreads : Reads P held .step := by
    intro _ _
    rw [← hheld, PlcMemory.syncMappings_of_nil
      ((PlcMemory.mappings_clientWrites s.mem ws).trans h.nil)]
    exact hwritten
  refine ⟨?_, ?_, fun a => ?_⟩
  · rw [heldScan, Loop.each_append, hbegins]
    refine ⟨hclients ws s, hreads, fun _ hstarts => ?_, fun _ hstarts => ?_, trivial⟩
    · have hstarts : (step L held).phase = .inputs := hstarts
      rw [hlogic] at hstarts
      cases hstarts
    · have hstarts : (step L (step L held)).phase = .inputs := hstarts
      rw [houtputs] at hstarts
      cases hstarts
  · rw [foldl_heldScan]
    exact h.amid L _
  · rw [foldl_heldScan, size_amid L h]

end PlcScheduler

end VPlc
