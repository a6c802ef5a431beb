import VPlc.Mirror.Apart
import VPlc.Proofs.MappingRefine

/-!
# Rules that share no cell

With no cell named twice the rules cannot disturb one another, and one might
expect the engine to come to rest after one pass: sources would then change
when someone writes and not otherwise. It does not quite. `syncMappings`
records the value it meant to write, so a destination that cannot hold that
value (a bit under a word, an address past the end, an area that does not
exist) looks changed on the next pass and is copied back over the source.

`second_pass_sources_iff` says exactly when a second pass leaves the sources
alone. The addresses are whatever `parseAddress` gave; those that name no cell
may repeat.
-/

namespace VPlc

open Mirror (Link Apart Inert pass)

def endpoints (rules : List MappingRule) : List MemoryRef :=
  rules.flatMap fun r => [r.src, r.dst]

def DistinctEndpoints (m : PlcMemory) (rules : List MappingRule) : Prop :=
  (endpoints rules).Pairwise fun p q => m.cell p = m.cell q → m.cell p = none

instance (m : PlcMemory) (rules : List MappingRule) :
    Decidable (DistinctEndpoints m rules) :=
  inferInstanceAs (Decidable (List.Pairwise _ _))

/-- Both addresses are what `parseAddress` makes of the rule's texts. -/
def MappingRule.Parsed (r : MappingRule) : Prop :=
  parseAddress r.srcRaw = .ok r.src ∧ parseAddress r.dstRaw = .ok r.dst

/-- The cell behind `ref` reads `v` once `v` has been written to it. -/
def PlcMemory.CanHold (m : PlcMemory) (ref : MemoryRef) (v : UInt16) : Prop :=
  (m.writeValue ref v).readValue ref = v

/-- The rule finds its source as recorded and its destination changed, so the
next pass copies backwards. -/
def MappingRule.BacksUp (m : PlcMemory) (r : MappingRule) : Prop :=
  r.initialized = true ∧ m.readValue r.src = r.lastSrcVal ∧
    m.readValue r.dst ≠ r.lastDstVal

theorem MappingRule.backsUp_iff {m : PlcMemory} {r : MappingRule} :
    r.BacksUp m ↔ (r.link m).move m.view = .back := by
  unfold BacksUp
  rw [Link.move_back, m.readValue_view, m.readValue_view]
  rfl

theorem inert_none (m : PlcMemory) : Inert cellNorm m.view none :=
  fun _ => rfl

/-- A value that fits one cell survives the way through another exactly if it
fits there too. -/
theorem cellNorm_through {a b : Option Cell} {v : UInt16}
    (ha : cellNorm a v = v) :
    cellNorm a (cellNorm b v) = v ↔ cellNorm b v = v := by
  have hzero : ∀ k, cellNorm k 0 = 0 := by
    intro k
    cases k with
    | none => rfl
    | some c => exact Area.norm_zero c.area
  refine ⟨?_, fun hb => by rw [hb, ha]⟩
  intro h
  cases b with
  | none =>
      rw [show cellNorm none v = 0 from rfl, hzero] at h
      exact h
  | some d =>
      cases hd : d.area.isBit with
      | false => exact Area.norm_of_word hd v
      | true =>
          -- A bit reads zero or one, and `a` passes either on or reads zero.
          by_cases hv : v = 0
          · rw [hv, hzero]
          · have hone : cellNorm (some d) v = 1 := by
              show d.area.norm v = 1
              rw [Area.norm_of_bit hd, decide_eq_true hv]
              rfl
            rw [hone] at h ⊢
            cases a with
            | none => exact absurd h.symm hv
            | some c =>
                cases hc : c.area.isBit with
                | false => exact (Area.norm_of_word hc 1).symm.trans h
                | true => rw [← h]; exact (Area.norm_of_bit hc 1).symm

namespace DistinctEndpoints

variable {m : PlcMemory} {rules : List MappingRule}

theorem apart (h : DistinctEndpoints m rules) :
    Apart cellNorm m.view (m.links rules) := by
  obtain ⟨hself, hpairs⟩ := List.pairwise_flatMap.mp h
  have hinert : ∀ p q, (m.cell p = m.cell q → m.cell p = none) →
      m.cell p = m.cell q → Inert cellNorm m.view (m.cell p) := by
    intro p q hpq heq
    rw [hpq heq]
    exact inert_none m
  refine ⟨?_, ?_⟩
  · intro l hl heq
    obtain ⟨r, hr, rfl⟩ := List.mem_map.mp hl
    refine hinert r.src r.dst ?_ heq
    exact (List.pairwise_cons.mp (hself r hr)).1 r.dst List.mem_cons_self
  · refine List.pairwise_map.mpr (hpairs.imp fun {r r'} hrr' k hk hk' => ?_)
    rcases hk with rfl | rfl <;> rcases hk' with hk' | hk' <;>
      exact hinert _ _ (hrr' _ (by simp) _ (by simp)) hk'.symm

theorem second_pass_source (h : DistinctEndpoints m m.mappings)
    {r : MappingRule} (hr : r ∈ m.mappings) :
    m.syncMappings.syncMappings.readValue r.src =
        m.syncMappings.readValue r.src ↔
      m.CanHold r.dst (m.readValue r.src) ∨ r.BacksUp m := by
  have hpass := h.apart.second_pass m.norm_view (List.mem_map_of_mem hr)
  have hfit : cellNorm (m.cell r.src) (m.view (m.cell r.src)) =
      m.view (m.cell r.src) := m.norm_view _
  have htwo : m.syncMappings.syncMappings.view =
      (pass cellNorm (pass cellNorm m.view (m.links m.mappings)).1
        (pass cellNorm m.view (m.links m.mappings)).2).1 := by
    rw [PlcMemory.syncMappings_view, m.syncMappings_links, m.syncMappings_view]
  unfold PlcMemory.CanHold
  rw [PlcMemory.readValue_view, PlcMemory.readValue_view,
    PlcMemory.cell_syncMappings, PlcMemory.cell_syncMappings, htwo,
    m.syncMappings_view, readValue_writeValue_self, MappingRule.backsUp_iff,
    m.readValue_view, ← cellNorm_through hfit]
  exact hpass

end DistinctEndpoints

/-- A second pass leaves every source alone exactly if every rule's destination
can hold what its source held at the start, or the first pass copied that rule
backwards. -/
theorem second_pass_sources_iff {m : PlcMemory}
    (h : DistinctEndpoints m m.mappings) :
    (∀ r ∈ m.mappings, m.syncMappings.syncMappings.readValue r.src =
        m.syncMappings.readValue r.src) ↔
      ∀ r ∈ m.mappings,
        m.CanHold r.dst (m.readValue r.src) ∨ r.BacksUp m :=
  forall₂_congr fun _ hr => h.second_pass_source hr

/-! ## A relay and a special relay -/

def m0Ref : MemoryRef := ⟨"MC", "M", 0, true⟩

/-- `MC.M.0`, set, and one rule from it to `dst`. -/
def relayTo (dst : String) : PlcMemory :=
  (PlcMemory.default.loadMappings (some
    [.entry "MC.M.0" dst])).1.writeValue m0Ref 1

set_option maxRecDepth 8192 in
theorem relayTo_mappings :
    (relayTo "MC.SM.0").mappings =
        [⟨"MC.M.0", "MC.SM.0", m0Ref, ⟨"MC", "SM", 0, true⟩, 0, 0, false⟩] ∧
      (relayTo "MC.SM.8000").mappings =
        [⟨"MC.M.0", "MC.SM.8000", m0Ref, ⟨"MC", "SM", 8000, true⟩, 0, 0,
          false⟩] := by
  refine ⟨?_, ?_⟩ <;> rfl

set_option maxRecDepth 16384 in
theorem relayTo_distinct :
    DistinctEndpoints (relayTo "MC.SM.0") (relayTo "MC.SM.0").mappings ∧
      DistinctEndpoints (relayTo "MC.SM.8000")
        (relayTo "MC.SM.8000").mappings := by
  refine ⟨?_, ?_⟩
  · have hm : (relayTo "MC.SM.0").cell m0Ref = some ⟨.mcM, 0⟩ := rfl
    have hsm : (relayTo "MC.SM.0").cell ⟨"MC", "SM", 0, true⟩ =
        some ⟨.mcSM, 0⟩ := rfl
    rw [relayTo_mappings.1]
    simp [DistinctEndpoints, endpoints, hm, hsm]
  · have hm : (relayTo "MC.SM.8000").cell m0Ref = some ⟨.mcM, 0⟩ := rfl
    have hsm : (relayTo "MC.SM.8000").cell ⟨"MC", "SM", 8000, true⟩ = none := rfl
    rw [relayTo_mappings.2]
    simp [DistinctEndpoints, endpoints, hm, hsm]

theorem relayTo_parsed : ∀ r ∈ (relayTo "MC.SM.8000").mappings, r.Parsed := by
  rw [relayTo_mappings.2]
  intro r hr
  rw [List.mem_singleton.mp hr]
  exact ⟨rfl, rfl⟩

set_option maxRecDepth 16384 in
/-- Between relays that exist the source stays set. -/
theorem second_pass_keeps_relay :
    (relayTo "MC.SM.0").syncMappings.syncMappings.readValue m0Ref =
      (relayTo "MC.SM.0").syncMappings.readValue m0Ref := by
  refine (second_pass_sources_iff relayTo_distinct.1).mpr ?_
    ⟨"MC.M.0", "MC.SM.0", m0Ref, ⟨"MC", "SM", 0, true⟩, 0, 0, false⟩ ?_
  · rw [relayTo_mappings.1]
    intro r hr
    rw [List.mem_singleton.mp hr]
    exact Or.inl rfl
  · rw [relayTo_mappings.1]
    exact List.mem_cons_self

set_option maxRecDepth 16384 in
/-- The store has no `SM.8000`: the second pass switches the source off, and
nobody has written it. -/
theorem second_pass_clears_relay :
    ¬ ∀ m : PlcMemory, (∀ r ∈ m.mappings, r.Parsed) →
      DistinctEndpoints m m.mappings →
      ∀ r ∈ m.mappings, m.syncMappings.syncMappings.readValue r.src =
        m.syncMappings.readValue r.src := by
  intro h
  have hmem := relayTo_mappings.2 ▸ List.mem_cons_self
  have hstays := h _ relayTo_parsed relayTo_distinct.2 _ hmem
  have hfirst : (relayTo "MC.SM.8000").syncMappings.readValue m0Ref = 1 := rfl
  have hsecond :
      (relayTo "MC.SM.8000").syncMappings.syncMappings.readValue m0Ref = 0 := rfl
  exact absurd (hsecond.symm.trans (hstays.trans hfirst)) (by decide)

end VPlc
