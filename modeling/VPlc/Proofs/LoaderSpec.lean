import VPlc.Core.Block
import VPlc.Core.Scheduler
import VPlc.Loop.Fold
import VPlc.Proofs.MappingRefine

/-!
# What the steps of a scan can do

One statement for each thing that moves. `pull` sets the variables of three of
the four kinds, each to a value that depends on the memory alone; `push` sets
the memory cell of every binding that is published; a client write leaves the
cells it is not addressed to alone. None of them changes a size or the rule
list, and with no rules the mapping engine does nothing at all.
-/

namespace VPlc

theorem PlcMemory.syncMappings_of_nil {m : PlcMemory} (h : m.mappings = []) :
    m.syncMappings = m :=
  syncMappings_of_inSync (by simp [h])

/-- The area a kind of variable is copied to. -/
def VarType.area : VarType → Area
  | .discreteInput => .di
  | .coil => .coil
  | .inputRegister => .ir
  | .holdingRegister => .hr

theorem VarType.isModbus_area (t : VarType) : t.area.isModbus = true := by
  cases t <;> rfl

theorem VarType.area_injective : Function.Injective VarType.area := by
  intro t t' h
  cases t <;> cases t' <;> first | rfl | cases h

/-- A variable as the memory cell that shows it would read. -/
def Vars.out (v : Vars) : VarType → UInt16 → UInt16
  | .discreteInput, k => (decide (v.ix k ≠ 0)).toUInt16
  | .coil, k => (decide (v.qx k ≠ 0)).toUInt16
  | .inputRegister, k => v.iw k
  | .holdingRegister, k => v.mw k

/-- Bindings the output sync copies: all but the two external switches. -/
def VarBinding.Published (b : VarBinding) : Prop :=
  b.type = .discreteInput → b.plcAddress ≠ 0 ∧ b.plcAddress ≠ 7

instance (b : VarBinding) : Decidable b.Published :=
  inferInstanceAs (Decidable (_ → _))

namespace PlcLoader

/-! ## Bindings -/

/-- A binding is a name among the first 64 of its kind that the library has. -/
theorem mem_resolveBindings {σ : Type} {lib : Library σ} {t : VarType}
    {k : UInt16} :
    ⟨t, k⟩ ∈ resolveBindings lib ↔
      k.toNat < 64 ∧ lib.hasSymbol (t.symbolName k) = true := by
  have hmem : ∀ t', ⟨t, k⟩ ∈ resolveType lib t' ↔
      t' = t ∧ k.toNat < 64 ∧ lib.hasSymbol (t.symbolName k) = true := by
    intro t'
    simp only [resolveType, List.mem_filterMap, List.mem_map, List.mem_range]
    constructor
    · rintro ⟨i, ⟨n, hn, rfl⟩, hi⟩
      split at hi
      · next hsym =>
          cases hi
          have hk : (UInt16.ofNat n).toNat = n :=
            UInt16.toNat_ofNat_of_lt' (hn.trans (by decide))
          exact ⟨rfl, hk.symm ▸ hn, hsym⟩
      · cases hi
    · rintro ⟨rfl, hk, hsym⟩
      exact ⟨k, ⟨k.toNat, hk, UInt16.ofNat_toNat⟩, if_pos hsym⟩
  simp only [resolveBindings, List.mem_append, hmem]
  cases t <;> simp

/-! ## Inputs -/

section Pull

variable (m : PlcMemory) (v : Vars) (t : VarType) (i k : UInt16)

theorem pullBinding_mw :
    (pullBinding m v ⟨t, i⟩).mw k =
      if t = .holdingRegister ∧ k = i then m.readHoldingRegister k
      else v.mw k := by
  cases t with
  | discreteInput => simp only [pullBinding]; split <;> simp
  | coil => simp only [pullBinding]; split <;> simp
  | inputRegister => simp [pullBinding]
  | holdingRegister =>
      by_cases hk : k = i
      · subst hk; simp [pullBinding]
      · simp [pullBinding, hk]

theorem pullBinding_qx :
    (pullBinding m v ⟨t, i⟩).qx k =
      if (t = .coil ∧ k = i) ∧ m.readDiscreteInput 0 = false then
        if m.readCoil k then 1 else 0
      else v.qx k := by
  cases t with
  | discreteInput => simp only [pullBinding]; split <;> simp
  | coil =>
      by_cases hk : k = i
      · subst hk
        cases hauto : m.readDiscreteInput 0 <;> simp [pullBinding, hauto]
      · cases hauto : m.readDiscreteInput 0 <;> simp [pullBinding, hauto, hk]
  | inputRegister => simp [pullBinding]
  | holdingRegister => simp [pullBinding]

theorem pullBinding_ix :
    (pullBinding m v ⟨t, i⟩).ix k =
      if (t = .discreteInput ∧ k = i) ∧ (k = 0 ∨ k = 7) then
        if m.readDiscreteInput k then 1 else 0
      else v.ix k := by
  cases t with
  | discreteInput =>
      by_cases hk : k = i
      · subst hk
        by_cases hext : k = 0 ∨ k = 7 <;> simp [pullBinding, hext]
      · simp only [pullBinding]
        split <;> simp [hk]
  | coil => simp only [pullBinding]; split <;> simp
  | inputRegister => simp [pullBinding]
  | holdingRegister => simp [pullBinding]

theorem pullBinding_iw : (pullBinding m v ⟨t, i⟩).iw = v.iw := by
  cases t <;> simp only [pullBinding] <;> (try split) <;> rfl

variable (bs : List VarBinding)

theorem mem_bindings_iff {bs : List VarBinding} {P : Prop} :
    (∃ b ∈ bs, (b.type = t ∧ k = b.plcAddress) ∧ P) ↔ ⟨t, k⟩ ∈ bs ∧ P := by
  constructor
  · rintro ⟨⟨_, _⟩, hb, ⟨rfl, rfl⟩, hP⟩
    exact ⟨hb, hP⟩
  · rintro ⟨hb, hP⟩
    exact ⟨_, hb, ⟨rfl, rfl⟩, hP⟩

theorem pull_mw :
    (pull bs m v).mw k =
      if ⟨.holdingRegister, k⟩ ∈ bs then m.readHoldingRegister k
      else v.mw k := by
  have h := Loop.foldl_sets (f := pullBinding m) (g := fun v => v.mw k)
    (I := fun _ => True)
    (p := fun b => b.type = .holdingRegister ∧ k = b.plcAddress)
    (fun _ _ _ => trivial) (fun v b _ => pullBinding_mw m v b.type b.plcAddress k)
    bs (s := v) trivial
  refine h.trans (if_congr ?_ rfl rfl)
  simpa using mem_bindings_iff (P := True) .holdingRegister k

theorem pull_qx :
    (pull bs m v).qx k =
      if ⟨.coil, k⟩ ∈ bs ∧ m.readDiscreteInput 0 = false then
        if m.readCoil k then 1 else 0
      else v.qx k := by
  have h := Loop.foldl_sets (f := pullBinding m) (g := fun v => v.qx k)
    (I := fun _ => True)
    (p := fun b => (b.type = .coil ∧ k = b.plcAddress) ∧
      m.readDiscreteInput 0 = false)
    (fun _ _ _ => trivial) (fun v b _ => pullBinding_qx m v b.type b.plcAddress k)
    bs (s := v) trivial
  exact h.trans (if_congr (mem_bindings_iff .coil k) rfl rfl)

theorem pull_ix :
    (pull bs m v).ix k =
      if ⟨.discreteInput, k⟩ ∈ bs ∧ (k = 0 ∨ k = 7) then
        if m.readDiscreteInput k then 1 else 0
      else v.ix k := by
  have h := Loop.foldl_sets (f := pullBinding m) (g := fun v => v.ix k)
    (I := fun _ => True)
    (p := fun b => (b.type = .discreteInput ∧ k = b.plcAddress) ∧
      (k = 0 ∨ k = 7))
    (fun _ _ _ => trivial) (fun v b _ => pullBinding_ix m v b.type b.plcAddress k)
    bs (s := v) trivial
  exact h.trans (if_congr (mem_bindings_iff .discreteInput k) rfl rfl)

theorem pull_iw : (pull bs m v).iw = v.iw :=
  Loop.foldl_keeps (g := Vars.iw)
    (fun v b _ => pullBinding_iw m v b.type b.plcAddress) v

end Pull

/-! ## Outputs -/

section Push

variable (v : Vars) (m : PlcMemory) (b : VarBinding) (bs : List VarBinding)

theorem pushBinding_eq :
    pushBinding v m b =
      if b.Published then
        m.set b.type.area b.plcAddress.toNat (v.out b.type b.plcAddress)
      else m := by
  obtain ⟨t, i⟩ := b
  cases t with
  | discreteInput =>
      simp only [pushBinding, VarBinding.Published, PlcMemory.writeDiscreteInput_eq,
        forall_const]
      rfl
  | coil => simp [pushBinding, VarBinding.Published, PlcMemory.writeCoil_eq,
      VarType.area, Vars.out]
  | inputRegister => simp [pushBinding, VarBinding.Published,
      PlcMemory.writeInputRegister_eq, VarType.area, Vars.out]
  | holdingRegister => simp [pushBinding, VarBinding.Published,
      PlcMemory.writeHoldingRegister_eq, VarType.area, Vars.out]

@[simp] theorem size_pushBinding (a : Area) :
    (pushBinding v m b).size a = m.size a := by
  rw [pushBinding_eq]
  split <;> simp

@[simp] theorem size_push (a : Area) : (push bs v m).size a = m.size a :=
  Loop.foldl_keeps (g := fun m => m.size a)
    (fun m b _ => size_pushBinding v m b a) m

@[simp] theorem mappings_push : (push bs v m).mappings = m.mappings := by
  refine Loop.foldl_keeps (g := PlcMemory.mappings) (fun m b _ => ?_) m
  rw [pushBinding_eq]
  split <;> simp

/-- A cell that shows no published variable is not written. -/
theorem get_push_of_not_bound {a : Area} {i : Nat}
    (h : ∀ b ∈ bs, b.Published → ¬ (b.type.area = a ∧ b.plcAddress.toNat = i)) :
    (push bs v m).get a i = m.get a i := by
  refine Loop.foldl_keeps (g := fun m => m.get a i) (fun m b hb => ?_) m
  rw [pushBinding_eq]
  split
  · next hpub =>
      rw [PlcMemory.get_set, if_neg]
      rintro ⟨harea, hi, -⟩
      exact h b hb hpub ⟨harea, hi⟩
  · rfl

theorem get_push_of_not_modbus {a : Area} (ha : a.isModbus = false) (i : Nat) :
    (push bs v m).get a i = m.get a i := by
  refine get_push_of_not_bound v m bs fun b _ _ hb => ?_
  rw [← hb.1, b.type.isModbus_area] at ha
  cases ha

/-- The external switches are the clients' alone. -/
theorem get_push_switch {k : UInt16} (hk : k = 0 ∨ k = 7) :
    (push bs v m).get .di k.toNat = m.get .di k.toNat := by
  refine get_push_of_not_bound v m bs fun b _ hpub hb => ?_
  obtain ⟨t, i⟩ := b
  cases t with
  | discreteInput =>
      have hi : i = k := UInt16.toNat_inj.mp hb.2
      subst hi
      obtain ⟨h0, h7⟩ := hpub rfl
      rcases hk with rfl | rfl
      · exact h0 rfl
      · exact h7 rfl
  | coil => cases hb.1
  | inputRegister => cases hb.1
  | holdingRegister => cases hb.1

theorem Vars.norm_out (v : Vars) (t : VarType) (k : UInt16) :
    t.area.norm (v.out t k) = v.out t k := by
  cases t with
  | discreteInput => exact Area.norm_bit rfl _
  | coil => exact Area.norm_bit rfl _
  | inputRegister => exact Area.norm_of_word rfl _
  | holdingRegister => exact Area.norm_of_word rfl _

/-- A cell that shows a published variable holds it afterwards. -/
theorem get_push_of_bound {t : VarType} {k : UInt16} (hb : ⟨t, k⟩ ∈ bs)
    (hpub : (⟨t, k⟩ : VarBinding).Published) (hk : k.toNat < m.size t.area) :
    (push bs v m).get t.area k.toNat = v.out t k := by
  have h := Loop.foldl_sets (f := pushBinding v)
    (g := fun m => m.get t.area k.toNat)
    (I := fun m => k.toNat < m.size t.area) (p := fun b => b = ⟨t, k⟩)
    (x := v.out t k) ?_ ?_ bs hk
  · exact h.trans (if_pos ⟨_, hb, rfl⟩)
  · intro m b hm
    rw [size_pushBinding]
    exact hm
  · intro m b hm
    split
    · next heq =>
        rw [heq, pushBinding_eq, if_pos hpub, PlcMemory.get_set,
          if_pos ⟨rfl, rfl, hm⟩]
        exact Vars.norm_out v t k
    · next hne =>
        rw [pushBinding_eq]
        split
        · rw [PlcMemory.get_set, if_neg]
          rintro ⟨harea, hi, -⟩
          refine hne ?_
          obtain ⟨t', i⟩ := b
          have ht : t' = t := VarType.area_injective harea
          have hik : i = k := UInt16.toNat_inj.mp hi
          rw [ht, hik]
        · rfl

theorem readCoil_push {k : UInt16} (hb : ⟨.coil, k⟩ ∈ bs)
    (hk : k.toNat < m.size .coil) :
    (push bs v m).readCoil k = decide (v.qx k ≠ 0) := by
  have hpub : (⟨.coil, k⟩ : VarBinding).Published := nofun
  have hcell := get_push_of_bound v m bs hb hpub hk
  rw [VarType.area, ← PlcMemory.readCoil_eq, Vars.out] at hcell
  have hbit := congrArg (fun x => decide (x ≠ 0)) hcell
  simpa only [PlcMemory.decide_toUInt16_ne] using hbit

end Push

end PlcLoader

/-! ## Clients -/

namespace ClientWrite

variable (m : PlcMemory) (w : ClientWrite)

@[simp] theorem size_apply (a : Area) : (w.apply m).size a = m.size a := by
  cases w with
  | coil address value =>
      rw [apply, PlcMemory.writeCoil_eq, PlcMemory.size_set]
  | holdingRegister address value =>
      rw [apply, PlcMemory.writeHoldingRegister_eq, PlcMemory.size_set]
  | coils start values =>
      simp only [apply, PlcMemory.writeCoils]
      split
      · cases a <;> first | rfl | exact PlcMemory.size_writeBlock _ _ _
      · rfl
  | holdingRegisters start values =>
      simp only [apply, PlcMemory.writeHoldingRegisters]
      split
      · cases a <;> first | rfl | exact PlcMemory.size_writeBlock _ _ _
      · rfl
  | discreteInput address value =>
      rw [apply, PlcMemory.writeDiscreteInput_eq, PlcMemory.size_set]
  | inputRegister address value =>
      rw [apply, PlcMemory.writeInputRegister_eq, PlcMemory.size_set]
  | reference ref v => exact PlcMemory.size_writeValue m ref v a

@[simp] theorem mappings_apply : (w.apply m).mappings = m.mappings := by
  cases w with
  | coils start values =>
      simp only [apply, PlcMemory.writeCoils]; split <;> rfl
  | holdingRegisters start values =>
      simp only [apply, PlcMemory.writeHoldingRegisters]; split <;> rfl
  | reference ref v => exact PlcMemory.mappings_writeValue m ref v
  | _ => rfl

theorem get_apply {w : ClientWrite} {a : Area} {i : Nat}
    (h : ¬ w.Touches a i) : (w.apply m).get a i = m.get a i := by
  cases w with
  | coil address value =>
      rw [apply, PlcMemory.writeCoil_eq, PlcMemory.get_set, if_neg]
      rintro ⟨rfl, rfl, -⟩
      exact h ⟨rfl, rfl⟩
  | holdingRegister address value =>
      rw [apply, PlcMemory.writeHoldingRegister_eq, PlcMemory.get_set, if_neg]
      rintro ⟨rfl, rfl, -⟩
      exact h ⟨rfl, rfl⟩
  | coils start values =>
      simp only [apply, PlcMemory.writeCoils]
      split
      · cases a <;> try rfl
        refine congrArg Bool.toUInt16 (PlcMemory.getD_writeBlock_of_out ?_)
        exact fun hi => h ⟨rfl, hi⟩
      · rfl
  | holdingRegisters start values =>
      simp only [apply, PlcMemory.writeHoldingRegisters]
      split
      · cases a <;> try rfl
        refine PlcMemory.getD_writeBlock_of_out ?_
        exact fun hi => h ⟨rfl, hi⟩
      · rfl
  | discreteInput address value =>
      rw [apply, PlcMemory.writeDiscreteInput_eq, PlcMemory.get_set, if_neg]
      rintro ⟨rfl, rfl, -⟩
      exact h ⟨rfl, rfl⟩
  | inputRegister address value =>
      rw [apply, PlcMemory.writeInputRegister_eq, PlcMemory.get_set, if_neg]
      rintro ⟨rfl, rfl, -⟩
      exact h ⟨rfl, rfl⟩
  | reference ref v =>
      rw [apply, PlcMemory.writeValue_eq]
      cases ha : ref.area? with
      | none => rfl
      | some b =>
          rw [Option.elim_some, PlcMemory.get_set, if_neg]
          rintro ⟨rfl, rfl, -⟩
          exact h ⟨ha, rfl⟩

end ClientWrite

namespace PlcMemory

variable (m : PlcMemory) (ws : List ClientWrite)

@[simp] theorem size_clientWrites (a : Area) :
    (m.clientWrites ws).size a = m.size a :=
  Loop.foldl_keeps (g := fun m => m.size a)
    (fun m w _ => ClientWrite.size_apply m w a) m

@[simp] theorem mappings_clientWrites :
    (m.clientWrites ws).mappings = m.mappings :=
  Loop.foldl_keeps (g := PlcMemory.mappings)
    (fun m w _ => ClientWrite.mappings_apply m w) m

theorem get_clientWrites {ws : List ClientWrite} {a : Area} {i : Nat}
    (h : ∀ w ∈ ws, ¬ w.Touches a i) : (m.clientWrites ws).get a i = m.get a i :=
  Loop.foldl_keeps (g := fun m => m.get a i)
    (fun m w hw => ClientWrite.get_apply m (h w hw)) m

end PlcMemory

end VPlc
