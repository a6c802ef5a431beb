import Mathlib.Data.List.Nodup
import VPlc.Core.Calls
import VPlc.Core.ScanCalls
import VPlc.Proofs.ScanWrites

/-!
# The calls of the scan may be taken as steps

`PlcScheduler.run` lets clients write between the three calls of the scan and
not during one. Nothing is lost by that. Where there are no mapping rules, what
comes of a run whose calls last comes also of one whose calls are steps, with the
same single-cell writes in another order (`lasting_steps`).

A sync comes to each cell once, with one exception: while the inputs are copied
the mode switch is read again for every coil. So the one thing that must not
happen is that someone throws the switch in the middle of that copy (`Calm`). A
scan with some coils copied and some not has no counterpart among the steps.
-/

namespace VPlc

open Threads (Prog Interleaved alone)

/-! ## Single cells -/

namespace PlcMemory

theorem set_comm (m : PlcMemory) {a b : Area} {i j : Nat} (h : ¬ (a = b ∧ i = j))
    (v u : UInt16) : (m.set a i v).set b j u = (m.set b j u).set a i v := by
  refine ext_get (fun c => by simp only [size_set]) (fun c k => ?_)
    (by simp only [mappings_set])
  simp only [get_set, size_set]
  by_cases hb : b = c ∧ j = k ∧ j < m.size b
  · rw [if_pos hb, if_neg, if_pos hb]
    rintro ⟨rfl, rfl, -⟩
    exact h ⟨hb.1.symm, hb.2.1.symm⟩
  · rw [if_neg hb, if_neg hb]

end PlcMemory

/-- What the loader calls for and what others write is independent unless it is
one cell. -/
theorem independent :
    Threads.Independent LoaderCall.exec CellWrite.apply LoaderCall.cell CellWrite.target where
  call {c w} hne m := by
    have hcells : ¬ (w.area = c.cell.area ∧ w.index.toNat = c.cell.index) := by
      rintro ⟨ha, hi⟩
      have hcell : w.target = c.cell := by
        rw [CellWrite.target, ha, hi]
      exact hne hcell.symm
    have hget : (w.apply m).get c.cell.area c.cell.index = m.get c.cell.area c.cell.index := by
      rw [CellWrite.apply, PlcMemory.get_set, if_neg]
      exact fun h => hcells ⟨h.1, h.2.1⟩
    have hbool : ∀ {b c : Bool}, b.toUInt16 = c.toUInt16 → b = c := by decide
    have hset (v : UInt16) : (w.apply m).set c.cell.area c.cell.index v =
        (m.set c.cell.area c.cell.index v).set w.area w.index.toNat w.value :=
      m.set_comm hcells w.value v
    cases c with
    | readDiscreteInput address => exact Prod.ext rfl (hbool hget)
    | readCoil address => exact Prod.ext rfl (hbool hget)
    | readHoldingRegister address => exact Prod.ext rfl hget
    | writeDiscreteInput address value =>
        simp only [LoaderCall.exec, PlcMemory.writeDiscreteInput_eq]
        exact Prod.ext (hset _) rfl
    | writeCoil address value =>
        simp only [LoaderCall.exec, PlcMemory.writeCoil_eq]
        exact Prod.ext (hset _) rfl
    | writeInputRegister address value => exact Prod.ext (hset value) rfl
    | writeHoldingRegister address value => exact Prod.ext (hset value) rfl
  write {w w'} hne m := by
    refine m.set_comm ?_ w.value w'.value
    rintro ⟨ha, hi⟩
    exact hne (by rw [CellWrite.target, CellWrite.target, ha, hi])

theorem CellWrite.apply_toClient (w : CellWrite) (m : PlcMemory) :
    w.toClient.apply m = w.apply m := by
  obtain ⟨a, i, v⟩ := w
  have href : ∀ b : Area, (ClientWrite.reference (b.ref i) v).apply m = m.set b i.toNat v := by
    intro b
    rw [ClientWrite.apply, PlcMemory.writeValue_eq, Area.area?_ref]
    rfl
  cases a with
  | coil => rfl
  | di => rfl
  | ir => rfl
  | hr => rfl
  | _ => exact href _

/-! ## Client writes, cell by cell -/

section Cells

variable {m : PlcMemory}

theorem toNat_succ {i : UInt16} {n : Nat} (h : i.toNat + (n + 2) ≤ 65536) :
    (i + 1).toNat = i.toNat + 1 := by
  rw [UInt16.toNat_add]
  exact Nat.mod_eq_of_lt (show i.toNat + 1 < 65536 by omega)

theorem CellWrite.foldl_coils {i : UInt16} {vs : List Bool} (h : i.toNat + vs.length ≤ 65536) :
    (CellWrite.block .coil i (vs.map Bool.toUInt16)).foldl CellWrite.apply m =
      { m with coils := PlcMemory.writeBlock m.coils i.toNat vs } := by
  induction vs generalizing i m with
  | nil => rfl
  | cons v vs ih =>
      have hfirst : CellWrite.apply m ⟨.coil, i, v.toUInt16⟩ =
          { m with coils := m.coils.setIfInBounds i.toNat v } := by
        rw [CellWrite.apply, PlcMemory.set, PlcMemory.decide_toUInt16_ne]
      rw [List.map_cons, CellWrite.block, List.foldl_cons, hfirst]
      cases vs with
      | nil => rfl
      | cons v' vs =>
          have hi : (i + 1).toNat = i.toNat + 1 := toNat_succ h
          rw [List.length_cons] at h
          rw [ih (by omega), hi]
          rfl

theorem CellWrite.foldl_registers {i : UInt16} {vs : List UInt16}
    (h : i.toNat + vs.length ≤ 65536) :
    (CellWrite.block .hr i vs).foldl CellWrite.apply m =
      { m with holdingRegisters := PlcMemory.writeBlock m.holdingRegisters i.toNat vs } := by
  induction vs generalizing i m with
  | nil => rfl
  | cons v vs ih =>
      rw [CellWrite.block, List.foldl_cons]
      cases vs with
      | nil => rfl
      | cons v' vs =>
          have hi : (i + 1).toNat = i.toNat + 1 := toNat_succ h
          rw [List.length_cons] at h
          rw [ih (by omega), hi]
          rfl

theorem ClientWrite.apply_cells {m' : PlcMemory} (hsame : m.SameSizes m')
    (hsize : ∀ a, m.size a ≤ 65536) (w : ClientWrite) :
    w.apply m' = (w.cells m).foldl CellWrite.apply m' := by
  cases w with
  | coil address value => exact PlcMemory.writeCoil_eq m' address value
  | holdingRegister address value => rfl
  | discreteInput address value => exact PlcMemory.writeDiscreteInput_eq m' address value
  | inputRegister address value => rfl
  | coils start values =>
      have hcoils : m'.coils.size = m.size .coil := hsame .coil
      rw [ClientWrite.apply, PlcMemory.writeCoils, hcoils, ClientWrite.cells]
      have hle := hsize .coil
      split
      · exact (CellWrite.foldl_coils (by omega)).symm
      · rfl
  | holdingRegisters start values =>
      have hregs : m'.holdingRegisters.size = m.size .hr := hsame .hr
      rw [ClientWrite.apply, PlcMemory.writeHoldingRegisters, hregs, ClientWrite.cells]
      have hle := hsize .hr
      split
      · exact (CellWrite.foldl_registers (by omega)).symm
      · rfl
  | reference ref v =>
      rw [ClientWrite.apply, PlcMemory.writeValue_eq, ClientWrite.cells]
      cases ref.area? with
      | none => rfl
      | some a => rfl

end Cells

/-! ## Which cells a sync comes to -/

def VarBinding.cell (b : VarBinding) : Cell := ⟨b.type.area, b.plcAddress.toNat⟩

theorem VarBinding.cell_inj {b b' : VarBinding} (h : b.cell = b'.cell) : b = b' := by
  obtain ⟨t, k⟩ := b
  obtain ⟨t', k'⟩ := b'
  obtain ⟨harea, hindex⟩ := Cell.mk.inj h
  obtain rfl : t = t' := VarType.area_injective harea
  obtain rfl : k = k' := UInt16.toNat_inj.mp hindex
  rfl

namespace PlcLoader

variable {σ : Type}

theorem nodup_resolveType (lib : Library σ) (t : VarType) : (resolveType lib t).Nodup := by
  have hnumbers : ((List.range 64).map UInt16.ofNat).Nodup := by decide
  refine List.Nodup.filterMap (fun i j b hi hj => ?_) hnumbers
  have hbound {k : UInt16} (hk : b ∈ if lib.hasSymbol (t.symbolName k) then
      some (⟨t, k⟩ : VarBinding) else none) : b.plcAddress = k := by
    split at hk
    · cases hk
      rfl
    · cases hk
  exact (hbound hi).symm.trans (hbound hj)

theorem type_of_mem_resolveType {lib : Library σ} {t : VarType} {b : VarBinding}
    (h : b ∈ resolveType lib t) : b.type = t := by
  obtain ⟨i, -, hi⟩ := List.mem_filterMap.mp h
  split at hi
  · cases hi
    rfl
  · cases hi

theorem nodup_bindings (dlopen : String → Option (Library σ)) (path : String) :
    (loadLibrary dlopen path).1.bindings.Nodup := by
  unfold loadLibrary
  split
  · exact List.nodup_nil
  · cases dlopen path with
    | none => exact List.nodup_nil
    | some lib =>
        have hapart {l : List VarBinding} {t : VarType} (hl : ∀ b ∈ l, b.type ≠ t) :
            l.Disjoint (resolveType lib t) :=
          fun b hb hb' => hl b hb (type_of_mem_resolveType hb')
        have htype {b : VarBinding} {t t' : VarType} (hb : b ∈ resolveType lib t)
            (hne : t ≠ t') : b.type ≠ t' := type_of_mem_resolveType hb ▸ hne
        refine ((((nodup_resolveType lib .discreteInput).append
          (nodup_resolveType lib .coil) ?_).append
          (nodup_resolveType lib .inputRegister) ?_).append
          (nodup_resolveType lib .holdingRegister) ?_)
        · exact hapart fun b hb => htype hb (by decide)
        · refine hapart fun b hb => ?_
          rcases List.mem_append.mp hb with hb | hb
          · exact htype hb (by decide)
          · exact htype hb (by decide)
        · refine hapart fun b hb => ?_
          rcases List.mem_append.mp hb with hb | hb
          · rcases List.mem_append.mp hb with hb | hb
            · exact htype hb (by decide)
            · exact htype hb (by decide)
          · exact htype hb (by decide)

end PlcLoader

namespace PlcLoader.Calls

variable {b : VarBinding} {bs : List VarBinding} {c : Cell} (v : Vars)

theorem avoids_pullBinding (hmode : (⟨.di, 0⟩ : Cell) ≠ c) (hb : b.cell ≠ c) :
    (pullBinding v b).Avoids LoaderCall.cell c := by
  obtain ⟨t, k⟩ := b
  cases t with
  | coil =>
      refine ⟨hmode, fun auto => ?_⟩
      exact Prog.Calls.ite trivial ⟨hb, fun _ => trivial⟩
  | discreteInput => exact Prog.Calls.ite ⟨hb, fun _ => trivial⟩ trivial
  | holdingRegister => exact ⟨hb, fun _ => trivial⟩
  | inputRegister => trivial

theorem once_pullBinding (hmode : (⟨.di, 0⟩ : Cell) ≠ c) :
    (pullBinding v b).Once LoaderCall.cell c := by
  obtain ⟨t, k⟩ := b
  cases t with
  | coil =>
      refine .inl ⟨hmode, fun auto => ?_⟩
      cases auto with
      | true => trivial
      | false => exact .inr fun _ => trivial
  | discreteInput =>
      unfold pullBinding
      dsimp only
      split
      · exact .inr fun _ => trivial
      · trivial
  | holdingRegister => exact .inr fun _ => trivial
  | inputRegister => trivial

theorem avoids_pull (hmode : (⟨.di, 0⟩ : Cell) ≠ c) (hbs : ∀ b ∈ bs, b.cell ≠ c) :
    (pull bs v).Avoids LoaderCall.cell c := by
  induction bs generalizing v with
  | nil => trivial
  | cons b bs ih =>
      obtain ⟨hb, hrest⟩ := List.forall_mem_cons.mp hbs
      rw [pull, List.foldlM_cons]
      exact (avoids_pullBinding v hmode hb).bind fun v' => ih v' hrest

/-- Of the bound cells, an input sync comes to each once. -/
theorem once_pull (hmode : (⟨.di, 0⟩ : Cell) ≠ c) (hnodup : bs.Nodup) :
    (pull bs v).Once LoaderCall.cell c := by
  induction bs generalizing v with
  | nil => trivial
  | cons b bs ih =>
      obtain ⟨hmem, hrest⟩ := List.nodup_cons.mp hnodup
      rw [pull, List.foldlM_cons]
      by_cases hb : b.cell = c
      · refine Prog.Once.bind_avoids (once_pullBinding v hmode) fun v' => ?_
        refine avoids_pull v' hmode fun b' hb' heq => ?_
        exact hmem (VarBinding.cell_inj (hb.trans heq.symm) ▸ hb')
      · exact Prog.Avoids.bind_once (avoids_pullBinding v hmode hb) fun v' => ih v' hrest

theorem avoids_pushBinding (hb : b.cell ≠ c) :
    (pushBinding v b).Avoids LoaderCall.cell c := by
  obtain ⟨t, k⟩ := b
  cases t with
  | coil => exact ⟨hb, fun _ => trivial⟩
  | discreteInput => exact Prog.Calls.ite ⟨hb, fun _ => trivial⟩ trivial
  | holdingRegister => exact ⟨hb, fun _ => trivial⟩
  | inputRegister => exact ⟨hb, fun _ => trivial⟩

theorem once_pushBinding : (pushBinding v b).Once LoaderCall.cell c := by
  obtain ⟨t, k⟩ := b
  cases t with
  | coil => exact .inr fun _ => trivial
  | discreteInput =>
      unfold pushBinding
      dsimp only
      split
      · exact .inr fun _ => trivial
      · trivial
  | holdingRegister => exact .inr fun _ => trivial
  | inputRegister => exact .inr fun _ => trivial

theorem avoids_push (hbs : ∀ b ∈ bs, b.cell ≠ c) : (push bs v).Avoids LoaderCall.cell c :=
  Prog.Calls.forM bs fun b hb => avoids_pushBinding v (hbs b hb)

theorem once_push (hnodup : bs.Nodup) : (push bs v).Once LoaderCall.cell c := by
  induction bs with
  | nil => trivial
  | cons b bs ih =>
      obtain ⟨hmem, hrest⟩ := List.nodup_cons.mp hnodup
      rw [push, List.forM_cons]
      by_cases hb : b.cell = c
      · refine Prog.Once.bind_avoids (once_pushBinding v) fun _ => avoids_push v ?_
        exact fun b' hb' heq => hmem (VarBinding.cell_inj (hb.trans heq.symm) ▸ hb')
      · exact Prog.Avoids.bind_once (avoids_pushBinding v hb) fun _ => ih hrest

/-! ## What a sync does by itself -/

variable (m : PlcMemory)

theorem alone_pullBinding (b : VarBinding) :
    alone LoaderCall.exec (pullBinding v b) m = (m, PlcLoader.pullBinding m v b) := by
  obtain ⟨t, k⟩ := b
  cases t with
  | coil =>
      show alone LoaderCall.exec (if m.readDiscreteInput 0 then _ else _) m = _
      simp only [PlcLoader.pullBinding]
      split <;> rfl
  | discreteInput =>
      simp only [pullBinding, PlcLoader.pullBinding]
      split <;> rfl
  | holdingRegister => rfl
  | inputRegister => rfl

theorem alone_pull (bs : List VarBinding) :
    alone LoaderCall.exec (pull bs v) m = (m, PlcLoader.pull bs m v) :=
  Threads.alone_foldlM LoaderCall.exec bs (fun v b _ => alone_pullBinding v m b) v

theorem alone_push (bs : List VarBinding) :
    alone LoaderCall.exec (push bs v) m = (PlcLoader.push bs v m, ⟨⟩) := by
  refine Threads.alone_forM LoaderCall.exec bs (fun b _ m => ?_) m
  obtain ⟨t, k⟩ := b
  cases t with
  | discreteInput =>
      simp only [pushBinding, PlcLoader.pushBinding]
      split <;> rfl
  | coil => rfl
  | holdingRegister => rfl
  | inputRegister => rfl

end PlcLoader.Calls

/-! ## One call -/

theorem CellWrite.mappings_foldl (ws : List CellWrite) (m : PlcMemory) :
    (ws.foldl CellWrite.apply m).mappings = m.mappings := by
  induction ws generalizing m with
  | nil => rfl
  | cons w ws ih => exact (ih _).trans (m.mappings_set w.area w.index.toNat w.value)

theorem PlcMemory.clientWrites_cells {m₀ m : PlcMemory} (hsame : m₀.SameSizes m)
    (hsize : ∀ a, m₀.size a ≤ 65536) (ws : List ClientWrite) :
    m.clientWrites ws = (ws.flatMap (ClientWrite.cells m₀)).foldl CellWrite.apply m := by
  induction ws generalizing m with
  | nil => rfl
  | cons w ws ih =>
      rw [List.flatMap_cons, List.foldl_append, ← w.apply_cells hsame hsize]
      exact ih fun a => (ClientWrite.size_apply m w a).trans (hsame a)

theorem LoaderCall.size_exec (c : LoaderCall) (m : PlcMemory) (a : Area) :
    (c.exec m).1.size a = m.size a := by
  cases c with
  | writeDiscreteInput address value =>
      rw [exec, PlcMemory.writeDiscreteInput_eq]
      exact m.size_set .di a _ _
  | writeCoil address value =>
      rw [exec, PlcMemory.writeCoil_eq]
      exact m.size_set .coil a _ _
  | writeInputRegister address value => exact m.size_set .ir a address.toNat value
  | writeHoldingRegister address value => exact m.size_set .hr a address.toNat value
  | _ => rfl

section Window

variable {m₀ m m' : PlcMemory} {ws : List ClientWrite}

/-- A sync with writes in its midst is a sync between writes. -/
theorem window {α : Type} {p : Prog LoaderCall LoaderCall.Ret α} {a : α}
    (h : Interleaved LoaderCall.exec ClientWrite.apply p m ws m' a) (hsame : m₀.SameSizes m)
    (hsize : ∀ a, m₀.size a ≤ 65536)
    (honce : ∀ w ∈ ws.flatMap (ClientWrite.cells m₀), p.Once LoaderCall.cell w.target) :
    ∃ before after : List CellWrite,
      (before ++ after).Perm (ws.flatMap (ClientWrite.cells m₀)) ∧
      m' = after.foldl CellWrite.apply
        (alone LoaderCall.exec p (before.foldl CellWrite.apply m)).1 ∧
      a = (alone LoaderCall.exec p (before.foldl CellWrite.apply m)).2 := by
  have hcells : Interleaved LoaderCall.exec CellWrite.apply p m
      (ws.flatMap (ClientWrite.cells m₀)) m' a := by
    refine h.parts (fun c s hs b => ?_) (fun s w hs b => ?_) (fun s w hs => ?_) hsame
    · exact (c.size_exec s b).trans (hs b)
    · exact (ClientWrite.size_apply s w b).trans (hs b)
    · exact w.apply_cells hs hsize
  exact hcells.atomic independent honce

theorem CellWrite.area_of_mem_block {a : Area} {i : UInt16} {vs : List UInt16}
    {w : CellWrite} (h : w ∈ CellWrite.block a i vs) : w.area = a := by
  induction vs generalizing i with
  | nil => cases h
  | cons v vs ih =>
      rcases List.mem_cons.mp h with rfl | h
      · rfl
      · exact ih h

theorem ClientWrite.target_ne_mode {w : ClientWrite} (h : ¬ w.Touches .di 0) {c : CellWrite}
    (hc : c ∈ w.cells m₀) : (⟨.di, 0⟩ : Cell) ≠ c.target := by
  intro heq
  obtain ⟨harea, hindex⟩ := Cell.mk.inj heq
  cases w with
  | coil address value =>
      obtain rfl := List.mem_singleton.mp hc
      cases harea
  | holdingRegister address value =>
      obtain rfl := List.mem_singleton.mp hc
      cases harea
  | discreteInput address value =>
      obtain rfl := List.mem_singleton.mp hc
      exact h ⟨rfl, hindex⟩
  | inputRegister address value =>
      obtain rfl := List.mem_singleton.mp hc
      cases harea
  | coils start values =>
      rw [ClientWrite.cells] at hc
      split at hc
      · rw [CellWrite.area_of_mem_block hc] at harea
        cases harea
      · cases hc
  | holdingRegisters start values =>
      rw [ClientWrite.cells] at hc
      split at hc
      · rw [CellWrite.area_of_mem_block hc] at harea
        cases harea
      · cases hc
  | reference ref v =>
      rw [ClientWrite.cells] at hc
      cases ha : ref.area? with
      | none =>
          rw [ha] at hc
          cases hc
      | some a =>
          rw [ha] at hc
          obtain rfl := List.mem_singleton.mp hc
          exact h ⟨ha.trans (congrArg some harea.symm), hindex⟩

end Window

/-! ## The run -/

namespace PlcScheduler

variable {σ : Type} (L : PlcLoader σ)

def clientEvents (ws : List CellWrite) : List Event := ws.map fun w => .client w.toClient

theorem run_clientEvents (s : Plant σ) (ws : List CellWrite) :
    run L s (clientEvents ws) = { s with mem := ws.foldl CellWrite.apply s.mem } := by
  induction ws generalizing s with
  | nil => rfl
  | cons w ws ih =>
      rw [clientEvents, List.map_cons, run_cons, exec, w.apply_toClient]
      exact ih _

theorem client?_clientEvents (ws : List CellWrite) :
    (clientEvents ws).filterMap Event.client? = ws.map CellWrite.toClient := by
  rw [clientEvents, List.filterMap_map]
  exact congrFun List.filterMap_eq_map ws

variable {L} {s s' : Plant σ} {m₀ : PlcMemory}

theorem run_call (before after : List CellWrite) :
    run L s (clientEvents before ++ .step :: clientEvents after) =
      { step L { s with mem := before.foldl CellWrite.apply s.mem } with
        mem := after.foldl CellWrite.apply
          (step L { s with mem := before.foldl CellWrite.apply s.mem }).mem } := by
  rw [run_append, run_clientEvents, run_cons, exec, run_clientEvents]

/-- A call that lasts is a call between writes. -/
theorem during_step {ws : List ClientWrite} (h : During L s ws s')
    (hnil : s.mem.mappings = []) (hnodup : L.bindings.Nodup) (hsame : m₀.SameSizes s.mem)
    (hsize : ∀ a, m₀.size a ≤ 65536)
    (hcalm : s.phase = .inputs → ∀ w ∈ ws, ¬ w.Touches .di 0) :
    ∃ before after : List CellWrite,
      (before ++ after).Perm (ws.flatMap (ClientWrite.cells m₀)) ∧
      run L s (clientEvents before ++ .step :: clientEvents after) = s' := by
  have hmappings (ws : List CellWrite) : (ws.foldl CellWrite.apply s.mem).mappings = [] := by
    rw [CellWrite.mappings_foldl, hnil]
  cases hphase : s.phase with
  | inputs =>
      simp only [During, hphase] at h
      obtain ⟨mem, vars, hint, rfl⟩ := h
      rw [PlcMemory.syncMappings_of_nil hnil] at hint
      obtain ⟨before, after, hperm, hmem, hvars⟩ := window hint hsame hsize fun c hc => by
        obtain ⟨w, hw, hcw⟩ := List.mem_flatMap.mp hc
        exact PlcLoader.Calls.once_pull _ (w.target_ne_mode (hcalm hphase w hw) hcw) hnodup
      rw [PlcLoader.Calls.alone_pull] at hmem hvars
      have hstep := step_inputs (s := { s with mem := before.foldl CellWrite.apply s.mem }) L
        (hmappings before) hphase
      refine ⟨before, after, hperm, ?_⟩
      rw [run_call, hstep, hmem, hvars]
  | logic =>
      simp only [During, hphase] at h
      subst h
      refine ⟨[], ws.flatMap (ClientWrite.cells m₀), .refl _, ?_⟩
      rw [run_call, PlcMemory.clientWrites_cells hsame hsize]
      simp only [List.foldl_nil, step_logic L hphase]
  | outputs =>
      simp only [During, hphase] at h
      obtain ⟨mem, hint, rfl⟩ := h
      obtain ⟨before, after, hperm, hmem, -⟩ := window hint hsame hsize fun c _ =>
        PlcLoader.Calls.once_push s.dll.vars hnodup
      rw [PlcLoader.Calls.alone_push] at hmem
      have hnone : mem.mappings = [] := by
        rw [hmem, CellWrite.mappings_foldl, PlcLoader.mappings_push, hmappings]
      have hstep := step_outputs (s := { s with mem := before.foldl CellWrite.apply s.mem }) L
        (hmappings before) hphase
      refine ⟨before, after, hperm, ?_⟩
      rw [run_call, hstep, PlcMemory.syncMappings_of_nil hnone, hmem]

theorem during_phase {ws : List ClientWrite} (h : During L s ws s') :
    nextPhase s.phase = s'.phase := by
  cases hphase : s.phase with
  | inputs =>
      simp only [During, hphase] at h
      obtain ⟨mem, vars, -, rfl⟩ := h
      rfl
  | logic =>
      simp only [During, hphase] at h
      rw [h]
      rfl
  | outputs =>
      simp only [During, hphase] at h
      obtain ⟨mem, -, rfl⟩ := h
      rfl

/-- What comes of a run whose calls last comes of one whose calls are steps. -/
theorem lasting_steps_from {hs : List Happening} (hrun : Lasting L s hs s')
    (hnil : s.mem.mappings = []) (hnodup : L.bindings.Nodup) (hsame : m₀.SameSizes s.mem)
    (hsize : ∀ a, m₀.size a ≤ 65536) (hcalm : Calm s.phase hs) :
    ∃ es : List Event, run L s es = s' ∧
      (es.filterMap Event.client?).Perm ((clientWritesOf m₀ hs).map CellWrite.toClient) := by
  induction hrun with
  | nil s => exact ⟨[], rfl, .refl _⟩
  | @client s s' w hs _ ih =>
      obtain ⟨es, hrun, hperm⟩ := ih (by rw [ClientWrite.mappings_apply, hnil])
        (fun a => (ClientWrite.size_apply s.mem w a).trans (hsame a)) hcalm
      refine ⟨clientEvents (w.cells m₀) ++ es, ?_, ?_⟩
      · rw [run_append, run_clientEvents, ← w.apply_cells hsame hsize]
        exact hrun
      · rw [List.filterMap_append, client?_clientEvents, clientWritesOf, List.map_append]
        exact hperm.append_left _
  | @call s s₁ s' ws hs hcall _ ih =>
      obtain ⟨before, after, hperm₁, hcall'⟩ :=
        during_step hcall hnil hnodup hsame hsize hcalm.1
      obtain ⟨hnil₁, hsize₁⟩ := run_mem L hnil (clientEvents before ++ .step :: clientEvents after)
      rw [hcall'] at hnil₁ hsize₁
      have hphase : Calm s₁.phase hs := during_phase hcall ▸ hcalm.2
      obtain ⟨es, hrun, hperm⟩ := ih hnil₁ (fun a => (hsize₁ a).trans (hsame a)) hphase
      refine ⟨(clientEvents before ++ .step :: clientEvents after) ++ es, ?_, ?_⟩
      · rw [run_append, hcall', hrun]
      · have hcall? : (clientEvents before ++ .step :: clientEvents after).filterMap
            Event.client? = (before ++ after).map CellWrite.toClient := by
          rw [List.filterMap_append, List.filterMap_cons_none rfl, client?_clientEvents,
            client?_clientEvents, List.map_append]
        have hboth := (hperm₁.map CellWrite.toClient).append hperm
        rw [← List.map_append] at hboth
        rw [List.filterMap_append, hcall?, clientWritesOf]
        exact hboth

/-- Where there are no rules, the calls of the scan may be taken as steps: every
run in which they last, and the mode switch is left alone while the inputs are
copied, ends where one of the other kind does, with the same writes to cells. -/
theorem lasting_steps (dlopen : String → Option (Library σ)) (path : String)
    {hs : List Happening} (hrun : Lasting (PlcLoader.loadLibrary dlopen path).1 s hs s')
    (hnil : s.mem.mappings = []) (hsize : ∀ a, s.mem.size a ≤ 65536)
    (hcalm : Calm s.phase hs) :
    ∃ es : List Event, run (PlcLoader.loadLibrary dlopen path).1 s es = s' ∧
      (es.filterMap Event.client?).Perm ((clientWritesOf s.mem hs).map CellWrite.toClient) :=
  lasting_steps_from hrun hnil (PlcLoader.nodup_bindings dlopen path) (fun _ => rfl) hsize hcalm

/-- A library with one coil. -/
def oneCoil : Library Unit where
  hasSymbol name := name == "__QX0_1"
  initHook _ := none
  runHook _ := none

def oneCoilLoader : PlcLoader Unit := (PlcLoader.loadLibrary (fun _ => some oneCoil) "coil.so").1

def oneCoilPlant : Plant Unit :=
  ⟨PlcMemory.default, ⟨⟨fun _ => 0, fun _ => 0, fun _ => 0, fun _ => 0⟩, ()⟩, .inputs, 0⟩

/-- A client writes the coil while the inputs are copied. -/
theorem lasting_steps_oneCoil :
    ∃ es : List Event, run oneCoilLoader oneCoilPlant es =
        ⟨(ClientWrite.coil 1 true).apply PlcMemory.default,
          ⟨PlcLoader.pull oneCoilLoader.bindings ((ClientWrite.coil 1 true).apply PlcMemory.default)
            oneCoilPlant.dll.vars, ()⟩, .logic, 1⟩ ∧
      (es.filterMap Event.client?).Perm
        ((clientWritesOf PlcMemory.default [.call [.coil 1 true]]).map CellWrite.toClient) := by
  have hnil : PlcMemory.default.mappings = [] := rfl
  have hpull := Interleaved.undisturbed LoaderCall.exec ClientWrite.apply
    (PlcLoader.Calls.pull oneCoilLoader.bindings oneCoilPlant.dll.vars)
    ((ClientWrite.coil 1 true).apply PlcMemory.default)
  rw [PlcLoader.Calls.alone_pull] at hpull
  dsimp only at hpull
  have hduring : During oneCoilLoader oneCoilPlant [.coil 1 true]
      ⟨(ClientWrite.coil 1 true).apply PlcMemory.default,
        ⟨PlcLoader.pull oneCoilLoader.bindings ((ClientWrite.coil 1 true).apply PlcMemory.default)
          oneCoilPlant.dll.vars, ()⟩, .logic, 1⟩ := by
    refine ⟨_, _, ?_, rfl⟩
    rw [show oneCoilPlant.mem.syncMappings = PlcMemory.default from
      PlcMemory.syncMappings_of_nil hnil]
    exact .other hpull
  refine lasting_steps (fun _ => some oneCoil) "coil.so" (.call hduring (.nil _)) hnil
    (fun a => (PlcMemory.size_default a).2.trans (by decide)) ⟨fun _ w hw => ?_, trivial⟩
  obtain rfl := List.mem_singleton.mp hw
  decide

end PlcScheduler

end VPlc
