import VPlc.Proofs.MappingStar
import VPlc.Proofs.ScanWrites

/-!
# One scan with the mapping engine in it

A scan makes two passes, one before the logic reads its inputs and one after it
has published its outputs. The first leaves every rule held
(`StarShaped.held_after`); the outputs go to Modbus cells, so where the
destinations are not Modbus cells the rules are still held when the second pass
comes, and it puts them in sync (`scan_inSync`).

If one endpoint of a star was written since the rules were last in sync, the
first pass has brought the value to the source. A source that is a bound holding
register then takes it through the logic and back, and the second pass spreads
it.
-/

namespace VPlc

open PlcScheduler

theorem MemoryRef.isModbus_area? {ref : MemoryRef} {a : Area}
    (h : ref.area? = some a) (hne : ref.protocol ≠ "MODBUS") :
    a.isModbus = false := by
  have hall : ref.area?.all (fun a => !a.isModbus) = true := by
    simp only [MemoryRef.area?, if_neg hne, apply_ite (Option.all _),
      Option.all_some, Option.all_none, Area.isModbus, Bool.not_false, ite_self]
  simpa [h] using hall

section Scan

variable {σ : Type} {L : PlcLoader σ} {s : Plant σ}

/-- A scan, call by call: `m₁` is what the first pass leaves, `d` the logic's
state after its turn. -/
theorem scan_eq (hphase : s.phase = .inputs) :
    let m₁ := s.mem.syncMappings
    let d := L.runLogic (s.tick + 1)
      ⟨PlcLoader.pull L.bindings m₁ s.dll.vars, s.dll.priv⟩
    (scan L s).mem = (PlcLoader.push L.bindings d.vars m₁).syncMappings ∧
      (scan L s).dll = d := by
  simp only [scan, step, hphase, PlcLoader.syncInputsToDll,
    PlcLoader.syncOutputsFromDll]
  exact ⟨trivial, trivial⟩

/-- Outputs go to Modbus cells, and held rules do not notice. -/
theorem AllHeld.push {m : PlcMemory} (h : AllHeld m)
    (hdst : ∀ r ∈ m.mappings, r.dst.protocol ≠ "MODBUS")
    (bs : List VarBinding) (v : Vars) : AllHeld (PlcLoader.push bs v m) := by
  intro l hl
  rw [PlcLoader.mappings_push,
    PlcMemory.links_congr fun a => PlcLoader.size_push v m bs a] at hl
  refine (h l hl).of_eq ?_
  obtain ⟨r, hr, rfl⟩ := List.mem_map.mp hl
  cases hc : m.cell r.dst with
  | none => simp only [MappingRule.link, hc]; rfl
  | some c =>
      simp only [MappingRule.link, hc]
      have harea := (PlcMemory.cell_eq_some m).mp hc
      exact PlcLoader.get_push_of_not_modbus v m bs
        (MemoryRef.isModbus_area? harea.1 (hdst r hr)) c.index

theorem StarShaped.push {m : PlcMemory} (h : StarShaped m m.mappings)
    (bs : List VarBinding) (v : Vars) :
    StarShaped (PlcLoader.push bs v m) (PlcLoader.push bs v m).mappings := by
  rw [PlcLoader.mappings_push]
  exact h.of_size fun a => PlcLoader.size_push v m bs a

theorem dst_of_refs {m m' : PlcMemory}
    (hrefs : m'.mappings.map MappingRule.refs = m.mappings.map MappingRule.refs)
    (hdst : ∀ r ∈ m.mappings, r.dst.protocol ≠ "MODBUS") :
    ∀ r ∈ m'.mappings, r.dst.protocol ≠ "MODBUS" := by
  intro r' hr'
  obtain ⟨r, hr, -, hd⟩ := PlcMemory.mem_of_refs hrefs hr'
  rw [← hd]
  exact hdst r hr

/-- At the end of a scan every rule is in sync, whatever state it began in. -/
theorem scan_inSync (hphase : s.phase = .inputs)
    (h : StarShaped s.mem s.mem.mappings)
    (hdst : ∀ r ∈ s.mem.mappings, r.dst.protocol ≠ "MODBUS") :
    ∀ r ∈ (scan L s).mem.mappings, r.InSync (scan L s).mem := by
  rw [(scan_eq hphase).1]
  refine (h.after.push _ _).inSync_after ?_
  exact h.held_after.push (dst_of_refs s.mem.refs_syncMappings hdst) _ _

/-- The rules of `m` are in sync; the writes `ws` then reach the cell `c` of the
star of `r₀`, whose source is the holding register `k`, and no other cell of
that star. -/
structure WroteOne (m : PlcMemory) (ws : List ClientWrite) (r₀ : MappingRule)
    (k : UInt16) (c : Cell) : Prop where
  inSync : ∀ r ∈ m.mappings, r.InSync m
  rule : r₀ ∈ m.mappings
  source : m.cell r₀.src = some ⟨.hr, k.toNat⟩
  endpoint : InStar m r₀ (some c)
  others : ∀ p, InStar m r₀ (some p) → p ≠ c →
    ∀ w ∈ ws, ¬ w.Touches p.area p.index

/-- The first pass brings the written value to the source. -/
theorem WroteOne.source_after {m : PlcMemory} {ws : List ClientWrite}
    {r₀ : MappingRule} {k : UInt16} {c : Cell} (hw : WroteOne m ws r₀ k c)
    (h : StarShaped m m.mappings) :
    (m.clientWrites ws).syncMappings.readHoldingRegister k =
      (m.clientWrites ws).get c.area c.index := by
  have hcell : ∀ ref, (m.clientWrites ws).cell ref = m.cell ref :=
    fun ref => PlcMemory.cell_congr ref (PlcMemory.size_clientWrites m ws)
  have hsrc := h.arbitrate hw.inSync (PlcMemory.size_clientWrites m ws)
    (PlcMemory.mappings_clientWrites m ws) hw.rule
  have hwin : starWinner m (m.clientWrites ws) r₀ =
      (m.clientWrites ws).view (some c) := by
    refine starWinner_of_one hw.inSync hcell hw.endpoint ?_
    intro p hp hne
    cases p with
    | none => rfl
    | some p =>
        refine PlcMemory.get_clientWrites m (hw.others p hp fun he => hne ?_)
        rw [he]
  rw [hwin, PlcMemory.readValue_view, PlcMemory.cell_syncMappings, hcell,
    hw.source] at hsrc
  exact hsrc

/-- And the rest of the scan hands it to the logic and to the whole star. -/
theorem WroteOne.scan {m : PlcMemory} {ws : List ClientWrite}
    {r₀ : MappingRule} {k : UInt16} {c : Cell} (hw : WroteOne m ws r₀ k c)
    (hphase : s.phase = .inputs) (hmem : s.mem = m.clientWrites ws)
    (h : StarShaped m m.mappings)
    (hdst : ∀ r ∈ m.mappings, r.dst.protocol ≠ "MODBUS")
    (hbound : ⟨.holdingRegister, k⟩ ∈ L.bindings)
    (hleaves : L.Leaves .holdingRegister k) :
    StarHolds m (PlcScheduler.scan L s).mem r₀ (s.mem.get c.area c.index) ∧
      (PlcScheduler.scan L s).dll.vars.mw k = s.mem.get c.area c.index := by
  have hsrc := hw.source_after h
  have hshape : StarShaped s.mem s.mem.mappings := by
    rw [hmem, PlcMemory.mappings_clientWrites]
    exact h.of_size (PlcMemory.size_clientWrites m ws)
  have hrefs : s.mem.syncMappings.mappings.map MappingRule.refs =
      m.mappings.map MappingRule.refs := by
    rw [PlcMemory.refs_syncMappings, hmem, PlcMemory.mappings_clientWrites]
  have hsize : ∀ a, s.mem.syncMappings.size a = m.size a := by
    intro a
    rw [PlcMemory.size_syncMappings, hmem, PlcMemory.size_clientWrites]
  rw [← hmem] at hsrc
  obtain ⟨hscan, hdll⟩ := scan_eq (L := L) hphase
  -- The logic is given the value and leaves it where it is.
  have hout := hleaves (s.tick + 1)
    ⟨PlcLoader.pull L.bindings s.mem.syncMappings s.dll.vars, s.dll.priv⟩
  simp only [Vars.out] at hout
  rw [PlcLoader.pull_mw, if_pos hbound, hsrc] at hout
  rw [hscan, hdll]
  refine ⟨?_, hout⟩
  generalize L.runLogic (s.tick + 1)
    ⟨PlcLoader.pull L.bindings s.mem.syncMappings s.dll.vars, s.dll.priv⟩ = d at hout
  -- So the register holds it when the second pass comes.
  have hk : k.toNat < s.mem.syncMappings.size VarType.holdingRegister.area := by
    rw [hsize]
    exact ((PlcMemory.cell_eq_some m).mp hw.source).2.2
  have hpush := PlcLoader.get_push_of_bound d.vars s.mem.syncMappings L.bindings
    hbound (published_of_kind (Or.inr rfl)) hk
  intro r hr hrs
  obtain ⟨r', hr', hs, hd⟩ := PlcMemory.mem_of_refs hrefs.symm hr
  have hread := (hshape.after.push L.bindings d.vars).read_after
    (hshape.held_after.push (dst_of_refs hrefs hdst) _ _)
    (by rw [PlcLoader.mappings_push]; exact hr')
  have hval : (PlcLoader.push L.bindings d.vars s.mem.syncMappings).readValue r'.src =
      s.mem.get c.area c.index := by
    rw [PlcMemory.readValue_view, hs,
      PlcMemory.cell_congr r.src fun a => (PlcLoader.size_push _ _ _ a).trans (hsize a),
      hrs, hw.source]
    exact hpush.trans hout
  rwa [hval, hs, hd] at hread

/-- One scan over star-shaped rules to non-Modbus destinations. At its end every
rule is initialized and its ends read equal, whatever the memory, the rules'
records and the logic were before. And if the clients had written one endpoint
of the star of a bound holding register that the logic does not assign, every
endpoint of the star and the logic's variable hold the value written. -/
theorem scan_settles_stars (hphase : s.phase = .inputs)
    (h : StarShaped s.mem s.mem.mappings)
    (hdst : ∀ r ∈ s.mem.mappings, r.dst.protocol ≠ "MODBUS") :
    (∀ r ∈ (scan L s).mem.mappings, r.initialized = true ∧
        (scan L s).mem.readValue r.src = (scan L s).mem.readValue r.dst) ∧
      ∀ (m : PlcMemory) (ws : List ClientWrite) (r₀ : MappingRule) (k : UInt16)
        (c : Cell), s.mem = m.clientWrites ws → WroteOne m ws r₀ k c →
        ⟨.holdingRegister, k⟩ ∈ L.bindings → L.Leaves .holdingRegister k →
        StarHolds m (scan L s).mem r₀ (s.mem.get c.area c.index) ∧
          (scan L s).dll.vars.mw k = s.mem.get c.area c.index := by
  refine ⟨?_, ?_⟩
  · intro r hr
    have hsync := scan_inSync hphase h hdst r hr
    exact ⟨hsync.1, hsync.2.2.2⟩
  · intro m ws r₀ k c hmem hw hbound hleaves
    have hrules : s.mem.mappings = m.mappings := by
      rw [hmem, PlcMemory.mappings_clientWrites]
    rw [hrules] at h hdst
    refine hw.scan hphase hmem (h.of_size fun a => ?_) hdst hbound hleaves
    rw [hmem, PlcMemory.size_clientWrites]

end Scan

/-! ## The fan-out in a scan -/

theorem fanOut_wroteOne :
    WroteOne fanOut [.reference d0Ref 7] fanOutRule 0 ⟨.mcD, 0⟩ where
  inSync := fanOut_inSync
  rule := fanOutRule_mem
  source := fanOut_cells.1
  endpoint := by
    rw [← fanOut_cells.2.2]
    refine Or.inr ⟨⟨"MODBUS.HR.0", "MC.D.0", hr0Ref, d0Ref, 0, 0, true⟩, ?_, rfl, rfl⟩
    rw [fanOut_mappings]
    exact List.mem_cons_of_mem _ List.mem_cons_self
  others := by
    intro p _ hne w hw ht
    rw [List.mem_singleton.mp hw] at ht
    obtain ⟨harea, hi⟩ := ht
    obtain ⟨a, i⟩ := p
    have ha : Area.mcD = a := Option.some.inj harea
    have hi : i = 0 := hi
    exact hne (by rw [← ha, hi])

/-- The fan-out after a MELSEC client wrote `D0`, about to be scanned. -/
def fanOutWritten : Plant Unit :=
  ⟨fanOut.clientWrites [.reference d0Ref 7], registerStart.dll, .inputs, 0⟩

theorem fanOutWritten_shape :
    StarShaped fanOutWritten.mem fanOutWritten.mem.mappings := by
  have hrules : fanOutWritten.mem.mappings = fanOut.mappings :=
    PlcMemory.mappings_clientWrites _ _
  rw [hrules]
  exact fanOut_starShaped.of_size (PlcMemory.size_clientWrites _ _)

theorem fanOutWritten_dst :
    ∀ r ∈ fanOutWritten.mem.mappings, r.dst.protocol ≠ "MODBUS" := by
  have hrules : fanOutWritten.mem.mappings = fanOut.mappings :=
    PlcMemory.mappings_clientWrites _ _
  rw [hrules, fanOut_mappings]
  simp [fanOutRule, db1Ref, d0Ref]

set_option maxRecDepth 8192 in
/-- The value reaches the other destination and the logic within the scan. -/
theorem scan_settles_fanOut :
    (scan registerLoader fanOutWritten).mem.readValue db1Ref = 7 ∧
      (scan registerLoader fanOutWritten).dll.vars.mw 0 = 7 := by
  obtain ⟨hstar, hvar⟩ := (scan_settles_stars (L := registerLoader) rfl
    fanOutWritten_shape fanOutWritten_dst).2 fanOut _ _ 0 _ rfl fanOut_wroteOne
    registerLoader_bound registerLoader_leaves
  have hval : fanOutWritten.mem.get .mcD 0 = 7 := rfl
  rw [hval] at hstar hvar
  exact ⟨(hstar fanOutRule fanOutRule_mem rfl).2, hvar⟩

end VPlc
