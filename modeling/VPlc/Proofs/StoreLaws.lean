import VPlc.Proofs.AddressTable

/-!
# The store behind the addresses

Twenty-four areas are reached through two dispatches, one for reading and one
for writing, and what they dispatch on was put together by a third, the
parser's. For a reference the parser made, the three agree: it is some area's
(`parsed_cases`) or it is nothing's. So writing through one reference shows
through another just when the two are the same and there is a cell there, and
what there is no cell for reads zero and swallows what is written.
-/

namespace VPlc

/-- A reference to a cell of a supported area. -/
def MemoryRef.Inside (m : PlcMemory) (ref : MemoryRef) : Prop :=
  ∃ a : Area, ref = a.ref ref.index ∧ ref.index.toNat < m.size a

theorem area?_eq_none {ref : MemoryRef} (hbit : ref.isBit = true)
    (h : areaOf ref.protocol ref.area = none) : ref.area? = none := by
  have hne := ne_of_areaOf_eq_none h
  simp only [spellings, List.forall_mem_cons, Area.protocol] at hne
  rw [MemoryRef.area?]
  by_cases hp : ref.protocol = "MODBUS"
  · simp only [hp, String.reduceEq, false_implies, forall_const, true_and] at hne
    simp only [hp, hne, String.reduceEq, if_true, if_false]
  rw [if_neg hp]
  by_cases hp : ref.protocol = "S7"
  · simp only [hp, String.reduceEq, false_implies, forall_const, true_and] at hne
    simp only [hp, hne, String.reduceEq, if_true, if_false]
  rw [if_neg hp]
  by_cases hp : ref.protocol = "MC"
  · simp only [hp, String.reduceEq, false_implies, forall_const, true_and] at hne
    simp only [hp, hbit, hne, String.reduceEq, if_true, if_false]
  rw [if_neg hp]
  by_cases hp : ref.protocol = "LS"
  · simp only [hp, String.reduceEq, false_implies, forall_const, true_and] at hne
    simp only [hp, hbit, hne, if_true, if_false]
  rw [if_neg hp]

theorem parsed_cases {addr : String} {ref : MemoryRef} (h : parseAddress addr = .ok ref) :
    (∃ a i, ref = Area.ref a i) ∨
      areaOf ref.protocol ref.area = none ∧ ref.area? = none := by
  obtain ⟨protocol, spelling, rest, -, -, hcases⟩ := parseAddress_ok h
  rcases hcases with ⟨a, index, -, -, rfl⟩ | ⟨hnone, rfl⟩
  · exact Or.inl ⟨a, index, rfl⟩
  · right
    exact ⟨hnone, area?_eq_none rfl hnone⟩

theorem PlcMemory.set_of_size_le {m : PlcMemory} {a : Area} {i : Nat} (h : m.size a ≤ i)
    (v : UInt16) : m.set a i v = m := by
  refine PlcMemory.ext_get ?_ ?_ (PlcMemory.mappings_set m a i v)
  · intro b
    exact PlcMemory.size_set m a b i v
  · intro b j
    rw [PlcMemory.get_set, if_neg (fun hin => by omega)]

section Laws

variable {addr addr' : String} {r q : MemoryRef} {m : PlcMemory}

theorem cell_of_inside (h : r.Inside m) :
    ∃ a, r = a.ref r.index ∧ m.cell r = some ⟨a, r.index.toNat⟩ := by
  obtain ⟨a, hr, hlt⟩ := h
  refine ⟨a, hr, (PlcMemory.cell_eq_some m).mpr ⟨?_, rfl, hlt⟩⟩
  rw [hr, Area.area?_ref]

/-- A parsed reference that names a cell is the one the cell is written as. -/
theorem ref_of_cell (hr : parseAddress addr = .ok r) {c : Cell} (hc : m.cell r = some c) :
    r = c.area.ref r.index ∧ c = ⟨c.area, r.index.toNat⟩ ∧ r.Inside m := by
  obtain ⟨harea, hindex, hlt⟩ := (PlcMemory.cell_eq_some m).mp hc
  rcases parsed_cases hr with ⟨a, i, rfl⟩ | ⟨-, hnone⟩
  · obtain rfl : a = c.area := by
      rw [Area.area?_ref] at harea
      exact Option.some.inj harea
    refine ⟨rfl, ?_, c.area, rfl, ?_⟩
    · rw [hindex]
    · rwa [hindex]
  · rw [hnone] at harea
    cases harea

theorem cell_eq_none (hr : parseAddress addr = .ok r) (h : ¬ r.Inside m) :
    m.cell r = none := by
  cases hc : m.cell r with
  | none => rfl
  | some c => exact absurd (ref_of_cell hr hc).2.2 h

theorem ref_eq_of_inside (hq : parseAddress addr' = .ok q) (hin : r.Inside m)
    (hprotocol : r.protocol = q.protocol) (harea : r.area = q.area)
    (hindex : r.index = q.index) : q = r := by
  obtain ⟨a, hr, -⟩ := hin
  rcases parsed_cases hq with ⟨b, j, rfl⟩ | ⟨hnone, -⟩
  · rw [hr] at hprotocol harea ⊢
    rw [Area.eq_of_name hprotocol.symm harea.symm, hindex, Area.index_ref]
  · rw [← hprotocol, ← harea, hr] at hnone
    rw [show areaOf (a.ref r.index).protocol (a.ref r.index).area = some a from areaOf_name a]
      at hnone
    cases hnone

theorem readValue_writeValue_inside (h : r.Inside m) (v : UInt16) :
    (m.writeValue r v).readValue r = if r.isBit then (if v ≠ 0 then 1 else 0) else v := by
  obtain ⟨a, href, hcell⟩ := cell_of_inside h
  rw [readValue_writeValue_self, hcell, href]
  show a.norm v = if a.isBit then _ else v
  unfold Area.norm
  split
  · by_cases hv : v = 0 <;> simp [hv] <;> rfl
  · rfl

theorem ref_eq_of_cell (hr : parseAddress addr = .ok r) (hq : parseAddress addr' = .ok q)
    {c : Cell} (hc : m.cell r = some c) (hc' : m.cell q = some c) : r = q := by
  obtain ⟨hrarea, hrindex, -⟩ := ref_of_cell hr hc
  obtain ⟨hqarea, hqindex, -⟩ := ref_of_cell hq hc'
  have hindex : r.index.toNat = q.index.toNat :=
    congrArg Cell.index (hrindex.symm.trans hqindex)
  rw [hrarea, hqarea, UInt16.toNat_inj.mp hindex]

theorem readValue_writeValue_apart (hr : parseAddress addr = .ok r)
    (hq : parseAddress addr' = .ok q) (h : ¬ (r.Inside m ∧ r = q)) (v : UInt16) :
    (m.writeValue r v).readValue q = m.readValue q := by
  rw [PlcMemory.readValue_view, PlcMemory.cell_writeValue, PlcMemory.view_writeValue,
    PlcMemory.readValue_view]
  by_cases hcells : m.cell q = m.cell r
  · rw [hcells, Function.update_self]
    cases hc : m.cell r with
    | none => rfl
    | some c =>
        have hsame := ref_eq_of_cell hr hq hc (hcells.trans hc)
        exact absurd ⟨(ref_of_cell hr hc).2.2, hsame⟩ h
  · rw [Function.update_of_ne hcells]

theorem readValue_writeValue_outside (hr : parseAddress addr = .ok r) (h : ¬ r.Inside m)
    (v : UInt16) : m.readValue r = 0 ∧ m.writeValue r v = m := by
  refine ⟨?_, ?_⟩
  · rw [PlcMemory.readValue_view, cell_eq_none hr h]
    rfl
  · rw [PlcMemory.writeValue_eq]
    rcases parsed_cases hr with ⟨a, i, rfl⟩ | ⟨-, hnone⟩
    · rw [Area.area?_ref, Option.elim_some]
      exact PlcMemory.set_of_size_le (Nat.le_of_not_lt fun hlt => h ⟨a, rfl, hlt⟩) v
    · rw [hnone, Option.elim_none]

/-- Writing through a parsed reference shows through it and through no other. -/
theorem readValue_writeValue_parsed (hr : parseAddress addr = .ok r)
    (hq : parseAddress addr' = .ok q) (m : PlcMemory) (v : UInt16) :
    (r.Inside m ∧ r.protocol = q.protocol ∧ r.area = q.area ∧ r.index = q.index →
      (m.writeValue r v).readValue q =
        if q.isBit then (if v ≠ 0 then 1 else 0) else v) ∧
    (¬ (r.Inside m ∧ r.protocol = q.protocol ∧ r.area = q.area ∧ r.index = q.index) →
      (m.writeValue r v).readValue q = m.readValue q) ∧
    (¬ r.Inside m → m.readValue r = 0 ∧ m.writeValue r v = m) := by
  refine ⟨?_, ?_, fun hout => readValue_writeValue_outside hr hout v⟩
  · intro h
    obtain ⟨hin, hprotocol, harea, hindex⟩ := h
    obtain rfl : q = r := ref_eq_of_inside hq hin hprotocol harea hindex
    exact readValue_writeValue_inside hin v
  · intro h
    refine readValue_writeValue_apart hr hq (fun hsame => h ?_) v
    obtain ⟨hin, rfl⟩ := hsame
    exact ⟨hin, rfl, rfl, rfl⟩

end Laws

theorem readValue_writeValue_parsed_sm :
    (PlcMemory.default.writeValue (Area.mcSM.ref 9) 7).readValue (Area.mcSM.ref 9) = 1 :=
  (@readValue_writeValue_parsed "MC.SM.9" "MC.SM.9" _ _ rfl rfl PlcMemory.default 7).1
    ⟨⟨.mcSM, rfl, by decide⟩, rfl, rfl, rfl⟩

end VPlc
