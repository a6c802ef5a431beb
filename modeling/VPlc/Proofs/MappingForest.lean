import VPlc.Mirror.Forest
import VPlc.Proofs.MappingStar

/-!
# Rules without a cycle come to rest

The other question about the engine left to itself is whether it stops. On a
cycle of rules it need not. Where the rules, read as edges between cells, form
a forest, it has stopped after two passes per rule: every rule is in sync, and
a pass over rules in sync changes nothing. Star-shaped lists are the forests of
depth one.
-/

namespace VPlc

open Mirror (Forest)

theorem StarShaped.forest {m : PlcMemory} {rules : List MappingRule}
    (h : StarShaped m rules) : Forest (m.links rules) :=
  h.star.forest

theorem PlcMemory.mem_iterate {m : PlcMemory} {r : MappingRule} (n : Nat)
    (hr : r ∈ m.mappings) :
    ∃ r' ∈ (syncMappings^[n] m).mappings, r'.src = r.src ∧ r'.dst = r.dst := by
  induction n generalizing m r with
  | zero => exact ⟨r, hr, rfl, rfl⟩
  | succ n ih =>
      obtain ⟨q, hq, hqs, hqd⟩ := mem_syncMappings hr
      obtain ⟨r', hr', hs, hd⟩ := ih hq
      exact ⟨r', hr', hs.trans hqs, hd.trans hqd⟩

/-- Two passes per rule put every rule of a forest in sync. -/
theorem inSync_of_forest {m : PlcMemory} (h : Wired m m.mappings)
    (hforest : Forest (m.links m.mappings)) :
    ∀ r ∈ (PlcMemory.syncMappings^[2 * m.mappings.length] m).mappings,
      r.InSync (PlcMemory.syncMappings^[2 * m.mappings.length] m) := by
  obtain ⟨hview, hlinks⟩ := h.iterate (2 * m.mappings.length)
  have hset := hforest.settles m.view
  rw [PlcMemory.links, List.length_map] at hset
  rw [PlcMemory.inSync_iff_settled, hview, hlinks]
  exact hset

/-- No oscillation. Rules between existing cells of one kind that form a
forest, from any memory and any record: after two passes per rule the ends of
each rule read equal, and no further pass changes the memory or a rule. -/
theorem forest_comes_to_rest {m : PlcMemory} (h : Wired m m.mappings)
    (hforest : Forest (m.links m.mappings)) :
    (∀ r ∈ m.mappings,
      (PlcMemory.syncMappings^[2 * m.mappings.length] m).readValue r.src =
        (PlcMemory.syncMappings^[2 * m.mappings.length] m).readValue r.dst) ∧
      ∀ k, 2 * m.mappings.length ≤ k →
        PlcMemory.syncMappings^[k] m =
          PlcMemory.syncMappings^[2 * m.mappings.length] m := by
  have hsync := inSync_of_forest h hforest
  refine ⟨?_, ?_⟩
  · intro r hr
    obtain ⟨r', hr', hs, hd⟩ :=
      PlcMemory.mem_iterate (2 * m.mappings.length) hr
    rw [← hs, ← hd]
    exact (hsync r' hr').2.2.2
  · intro k hk
    obtain ⟨j, rfl⟩ := Nat.exists_eq_add_of_le' hk
    rw [Function.iterate_add_apply]
    exact Function.iterate_fixed (PlcMemory.syncMappings_of_inSync hsync) j

/-- The fan-out, written to and left alone. -/
theorem forest_comes_to_rest_fanOut :
    PlcMemory.syncMappings^[5] (fanOut.writeValue d0Ref 7) =
      PlcMemory.syncMappings^[4] (fanOut.writeValue d0Ref 7) := by
  have hshape := fanOut_starShaped.writeValue d0Ref 7
  have hlen : (fanOut.writeValue d0Ref 7).mappings.length = 2 := by
    rw [PlcMemory.mappings_writeValue, fanOut_mappings]
    rfl
  have hrest := (forest_comes_to_rest hshape.toWired hshape.forest).2 5
  rw [hlen] at hrest
  exact hrest (by omega)

end VPlc
