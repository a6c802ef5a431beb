import VPlc.Mirror.Star
import VPlc.Proofs.MappingRefine

/-!
# Star-shaped rule lists

The rules people write fan one cell out to several: every destination belongs
to one rule and is no one's source. `StarShaped` says so of a rule list, and
`StarShaped.star` hands it to `Mirror.Star`. The first section carries the
facts about held stars over to `syncMappings`; what follows settles which of
several simultaneous writes wins.
-/

namespace VPlc

open Mirror (Link Star pass asIs)

/-- Every destination cell is in one rule and is never a source, every address
names a cell, and the two cells of a rule are of one kind. -/
structure StarShaped (m : PlcMemory) (rules : List MappingRule) : Prop
    extends Wired m rules where
  once : (rules.map fun r => m.cell r.dst).Nodup
  leaf : ∀ r ∈ rules, ∀ r' ∈ rules, m.cell r.dst ≠ m.cell r'.src

/-- Every rule's link is held: its destination is as the last pass left it. -/
def AllHeld (m : PlcMemory) : Prop :=
  ∀ l ∈ m.links m.mappings, l.Held m.view

namespace StarShaped

variable {m : PlcMemory} {rules : List MappingRule}

theorem star (h : StarShaped m rules) : Star (m.links rules) := by
  refine ⟨?_, ?_⟩
  · rw [PlcMemory.links, List.map_map]
    exact h.once
  · intro l hl l' hl'
    obtain ⟨r, hr, rfl⟩ := List.mem_map.mp hl
    obtain ⟨r', hr', rfl⟩ := List.mem_map.mp hl'
    exact h.leaf r hr r' hr'

theorem of_size {m' : PlcMemory} (h : StarShaped m rules)
    (hsize : ∀ a, m'.size a = m.size a) : StarShaped m' rules := by
  have hcell : ∀ ref, m'.cell ref = m.cell ref :=
    fun ref => PlcMemory.cell_congr ref hsize
  refine ⟨h.toWired.of_size hsize, ?_, ?_⟩
  · simp only [hcell]
    exact h.once
  · intro r hr r' hr'
    rw [hcell, hcell]
    exact h.leaf r hr r' hr'

theorem of_refs {rules' : List MappingRule} (h : StarShaped m rules)
    (hrefs : rules'.map MappingRule.refs = rules.map MappingRule.refs) :
    StarShaped m rules' := by
  have hdst : ∀ xs : List MappingRule, (xs.map fun r => m.cell r.dst) =
      (xs.map MappingRule.refs).map fun t => m.cell t.2.2.2 := by
    intro xs
    rw [List.map_map]
    rfl
  refine ⟨h.toWired.of_refs hrefs, ?_, ?_⟩
  · rw [hdst, hrefs, ← hdst]
    exact h.once
  · intro r hr r' hr'
    obtain ⟨q, hq, -, hqd⟩ := PlcMemory.mem_of_refs hrefs hr
    obtain ⟨q', hq', hqs, -⟩ := PlcMemory.mem_of_refs hrefs hr'
    rw [← hqd, ← hqs]
    exact h.leaf q hq q' hq'

theorem after (h : StarShaped m m.mappings) :
    StarShaped m.syncMappings m.syncMappings.mappings :=
  (h.of_refs m.refs_syncMappings).of_size m.size_syncMappings

theorem writeValue (h : StarShaped m m.mappings) (ref : MemoryRef)
    (v : UInt16) :
    StarShaped (m.writeValue ref v) (m.writeValue ref v).mappings := by
  rw [PlcMemory.mappings_writeValue]
  exact h.of_size fun a => PlcMemory.size_writeValue m ref v a

theorem view_after (h : StarShaped m m.mappings) :
    m.syncMappings.view = (pass asIs m.view (m.links m.mappings)).1 := by
  rw [m.syncMappings_view, h.pass_eq]

theorem links_after (h : StarShaped m m.mappings) :
    m.syncMappings.links m.syncMappings.mappings =
      (pass asIs m.view (m.links m.mappings)).2 := by
  rw [m.syncMappings_links, h.pass_eq]

/-- From any state one pass makes every rule's link held. -/
theorem held_after (h : StarShaped m m.mappings) : AllHeld m.syncMappings := by
  unfold AllHeld
  rw [h.view_after, h.links_after]
  exact h.star.pass_held

/-- A pass over rules that follow carries each source to its destinations. -/
theorem read_after_follows (h : StarShaped m m.mappings)
    (hfollows : ∀ l ∈ m.links m.mappings, l.Follows m.view)
    {r : MappingRule} (hr : r ∈ m.mappings) :
    m.syncMappings.readValue r.src = m.readValue r.src ∧
      m.syncMappings.readValue r.dst = m.readValue r.src := by
  simp only [PlcMemory.readValue_view, PlcMemory.cell_syncMappings]
  rw [h.view_after]
  exact h.star.follow hfollows (List.mem_map_of_mem hr)

/-- And leaves every rule in sync. -/
theorem inSync_after_follows (h : StarShaped m m.mappings)
    (hfollows : ∀ l ∈ m.links m.mappings, l.Follows m.view) :
    ∀ r ∈ m.syncMappings.mappings, r.InSync m.syncMappings := by
  rw [PlcMemory.inSync_iff_settled, h.view_after, h.links_after]
  exact h.star.settled_of_follows hfollows

theorem read_after (h : StarShaped m m.mappings) (hheld : AllHeld m)
    {r : MappingRule} (hr : r ∈ m.mappings) :
    m.syncMappings.readValue r.src = m.readValue r.src ∧
      m.syncMappings.readValue r.dst = m.readValue r.src :=
  h.read_after_follows (fun l hl => Or.inr (hheld l hl)) hr

theorem inSync_after (h : StarShaped m m.mappings) (hheld : AllHeld m) :
    ∀ r ∈ m.syncMappings.mappings, r.InSync m.syncMappings :=
  h.inSync_after_follows fun l hl => Or.inr (hheld l hl)

end StarShaped

theorem allHeld_of_inSync {m : PlcMemory}
    (h : ∀ r ∈ m.mappings, r.InSync m) : AllHeld m :=
  fun l hl => (PlcMemory.inSync_iff_settled.mp h l hl).held

theorem PlcMemory.mem_syncMappings {m : PlcMemory} {r : MappingRule}
    (h : r ∈ m.mappings) :
    ∃ r' ∈ m.syncMappings.mappings, r'.src = r.src ∧ r'.dst = r.dst :=
  PlcMemory.mem_of_refs m.refs_syncMappings.symm h

/-- Two passes over a star: each rule's cells end up with the value its source
had after the first. -/
theorem StarShaped.read_after_two {m : PlcMemory}
    (h : StarShaped m m.mappings) {r : MappingRule} (hr : r ∈ m.mappings) :
    m.syncMappings.syncMappings.readValue r.src =
        m.syncMappings.readValue r.src ∧
      m.syncMappings.syncMappings.readValue r.dst =
        m.syncMappings.readValue r.src := by
  obtain ⟨r', hr', hs, hd⟩ := PlcMemory.mem_syncMappings hr
  have hread := h.after.read_after h.held_after hr'
  rwa [hs, hd] at hread

/-- The cells of the star of `r₀`: its source, and the destination of every
rule with that source. -/
def InStar (m : PlcMemory) (r₀ : MappingRule) (k : Option Cell) : Prop :=
  k = m.cell r₀.src ∨
    ∃ r ∈ m.mappings, m.cell r.src = m.cell r₀.src ∧ k = m.cell r.dst

/-- Every endpoint of the star of `r₀` reads `v` in `m'`. -/
def StarHolds (m m' : PlcMemory) (r₀ : MappingRule) (v : UInt16) : Prop :=
  ∀ r ∈ m.mappings, m.cell r.src = m.cell r₀.src →
    m'.readValue r.src = v ∧ m'.readValue r.dst = v

/-! ## Simultaneous writes -/

def PlcMemory.writeValues (m : PlcMemory) (ws : List (MemoryRef × UInt16)) :
    PlcMemory :=
  ws.foldl (fun m w => m.writeValue w.1 w.2) m

namespace PlcMemory

theorem size_writeValues (m : PlcMemory) (ws : List (MemoryRef × UInt16))
    (a : Area) : (m.writeValues ws).size a = m.size a := by
  induction ws generalizing m with
  | nil => rfl
  | cons w ws ih => exact (ih _).trans (size_writeValue m w.1 w.2 a)

theorem mappings_writeValues (m : PlcMemory) (ws : List (MemoryRef × UInt16)) :
    (m.writeValues ws).mappings = m.mappings := by
  induction ws generalizing m with
  | nil => rfl
  | cons w ws ih => exact (ih _).trans (mappings_writeValue m w.1 w.2)

end PlcMemory

theorem StarShaped.writeValues {m : PlcMemory} (h : StarShaped m m.mappings)
    (ws : List (MemoryRef × UInt16)) :
    StarShaped (m.writeValues ws) (m.writeValues ws).mappings := by
  rw [m.mappings_writeValues]
  exact h.of_size (m.size_writeValues ws)

/-- The value a star should end up with when it agreed on its source's value in
`m` and its cells hold what they hold in `m'`: the source's, if it changed; else
that of the first destination in the list that changed; else the old one. -/
def starWinner (m m' : PlcMemory) (r : MappingRule) : UInt16 :=
  let v := m.readValue r.src
  if m'.readValue r.src ≠ v then m'.readValue r.src
  else
    (((m.mappings.filter fun r' => m.cell r'.src = m.cell r.src).map
      fun r' => m'.readValue r'.dst).find? fun w => w ≠ v).getD v

theorem starWinner_eq (m m' : PlcMemory) (hcell : ∀ ref, m'.cell ref = m.cell ref)
    (r : MappingRule) :
    starWinner m m' r =
      Star.arbitrate m'.view (m.view (m.cell r.src)) (m.cell r.src)
        (m.links m.mappings) := by
  unfold starWinner Star.arbitrate Star.firstChanged
  simp only [PlcMemory.readValue_view, hcell, PlcMemory.links, List.filter_map,
    List.map_map]
  rfl

/-- After one pass the source of a star that was in sync holds the winner of
the writes made since. -/
theorem StarShaped.arbitrate {m m' : PlcMemory} (h : StarShaped m m.mappings)
    (hsync : ∀ r ∈ m.mappings, r.InSync m)
    (hsize : ∀ a, m'.size a = m.size a) (hrules : m'.mappings = m.mappings)
    {r : MappingRule} (hr : r ∈ m.mappings) :
    m'.syncMappings.readValue r.src = starWinner m m' r := by
  have hcell : ∀ ref, m'.cell ref = m.cell ref :=
    fun ref => PlcMemory.cell_congr ref hsize
  have hshape : StarShaped m' m'.mappings := by
    rw [hrules]; exact h.of_size hsize
  have hlinks : m'.links m'.mappings = m.links m.mappings := by
    rw [hrules]; exact PlcMemory.links_congr hsize _
  rw [starWinner_eq m m' hcell, PlcMemory.readValue_view,
    PlcMemory.cell_syncMappings, hshape.view_after, hlinks, hcell]
  refine h.star.pass_arbitrate ?_ ?_
  · intro l hl
    exact h.star.leaf l hl (r.link m) (List.mem_map_of_mem hr)
  · intro l hl hsrc
    obtain ⟨hlive, hls, hld, heq⟩ :=
      PlcMemory.inSync_iff_settled.mp hsync l hl
    rw [hsrc] at hls heq
    exact ⟨hlive, hls, hld.trans heq.symm⟩

/-- When one cell of a star changed at most, that cell's value wins. -/
theorem starWinner_of_one {m m' : PlcMemory} {r₀ : MappingRule}
    {q : Option Cell} (hsync : ∀ r ∈ m.mappings, r.InSync m)
    (hcell : ∀ ref, m'.cell ref = m.cell ref) (hq : InStar m r₀ q)
    (hother : ∀ p, InStar m r₀ p → p ≠ q → m'.view p = m.view p) :
    starWinner m m' r₀ = m'.view q := by
  have hmem : ∀ {r}, r ∈ m.mappings.filter
      (fun r => m.cell r.src = m.cell r₀.src) →
      InStar m r₀ (m.cell r.dst) ∧ m.readValue r.dst = m.readValue r₀.src := by
    intro r hr
    obtain ⟨hr, hs⟩ := List.mem_filter.mp hr
    have hs := of_decide_eq_true hs
    refine ⟨Or.inr ⟨r, hr, hs, rfl⟩, ?_⟩
    rw [← (hsync r hr).2.2.2, m.readValue_view, m.readValue_view, hs]
  simp only [starWinner]
  split
  · next hsrc =>
      -- Only the written cell can have changed, so it is the source.
      by_cases he : m.cell r₀.src = q
      · rw [m'.readValue_view, hcell, he]
      · have hsame := hother _ (Or.inl rfl) he
        rw [m'.readValue_view, m.readValue_view, hcell] at hsrc
        exact absurd hsame hsrc
  · next hsrc =>
      cases hfind : List.find? (fun w => decide (w ≠ m.readValue r₀.src))
          ((m.mappings.filter fun r => m.cell r.src = m.cell r₀.src).map
            fun r => m'.readValue r.dst) with
      | none =>
          have hnone := List.find?_eq_none.mp hfind
          rw [Option.getD_none]
          rcases hq with rfl | ⟨r, hr, hs, rfl⟩
          · rw [← hcell, ← m'.readValue_view]
            exact (not_not.mp hsrc).symm
          · have hv := hnone (m'.readValue r.dst) (List.mem_map_of_mem
              (List.mem_filter.mpr ⟨hr, decide_eq_true hs⟩))
            rw [← hcell, ← m'.readValue_view]
            by_contra hne
            exact hv (decide_eq_true (Ne.symm hne))
      | some w =>
          have hw := List.find?_some hfind
          obtain ⟨r, hr, rfl⟩ := List.mem_map.mp (List.mem_of_find?_eq_some hfind)
          obtain ⟨hin, hval⟩ := hmem hr
          rw [Option.getD_some, m'.readValue_view, hcell]
          by_cases he : m.cell r.dst = q
          · rw [he]
          · have hsame := hother _ hin he
            rw [← hcell, ← m'.readValue_view, hcell, ← m.readValue_view, hval] at hsame
            exact absurd hsame (of_decide_eq_true hw)

/-- Arbitration of simultaneous writes. A star-shaped rule list in sync, then
any writes, then two passes: every cell of a star holds the source's value if
the source changed, otherwise the value of the first changed destination in
list order, otherwise what it held before. What happened to other stars does
not enter into it. -/
theorem simultaneous_writes {m : PlcMemory} (h : StarShaped m m.mappings)
    (hsync : ∀ r ∈ m.mappings, r.InSync m)
    (ws : List (MemoryRef × UInt16)) :
    ∀ r ∈ m.mappings,
      (m.writeValues ws).syncMappings.syncMappings.readValue r.src =
          starWinner m (m.writeValues ws) r ∧
        (m.writeValues ws).syncMappings.syncMappings.readValue r.dst =
          starWinner m (m.writeValues ws) r := by
  intro r hr
  have hshape := h.writeValues ws
  have hr' : r ∈ (m.writeValues ws).mappings := by
    rw [m.mappings_writeValues]; exact hr
  obtain ⟨hsrc, hdst⟩ := hshape.read_after_two hr'
  have hwin := h.arbitrate hsync (m.size_writeValues ws)
    (m.mappings_writeValues ws) hr
  exact ⟨hsrc.trans hwin, hdst.trans hwin⟩

/-! ## A holding register that fans out

The shape of the shipped rule file, two rules of it: `MODBUS.HR.0` goes to an
S7 and to a MELSEC word. -/

def hr0Ref : MemoryRef := ⟨"MODBUS", "HR", 0, false⟩
def db1Ref : MemoryRef := ⟨"S7", "DB1", 0, false⟩
def d0Ref : MemoryRef := ⟨"MC", "D", 0, false⟩

/-- The fan-out, loaded and synchronised once. -/
def fanOut : PlcMemory :=
  (PlcMemory.default.loadMappings (some
    [.entry "MODBUS.HR.0" "S7.DB1.W.0",
     .entry "MODBUS.HR.0" "MC.D.0"])).1.syncMappings

/-- The first of its rules, as the pass leaves it. -/
def fanOutRule : MappingRule :=
  ⟨"MODBUS.HR.0", "S7.DB1.W.0", hr0Ref, db1Ref, 0, 0, true⟩

set_option maxRecDepth 8192 in
theorem fanOut_mappings :
    fanOut.mappings =
      [fanOutRule, ⟨"MODBUS.HR.0", "MC.D.0", hr0Ref, d0Ref, 0, 0, true⟩] := rfl

theorem fanOutRule_mem : fanOutRule ∈ fanOut.mappings :=
  fanOut_mappings ▸ List.mem_cons_self

set_option maxRecDepth 8192 in
theorem fanOut_cells :
    fanOut.cell hr0Ref = some ⟨.hr, 0⟩ ∧ fanOut.cell db1Ref = some ⟨.s7Db1, 0⟩ ∧
      fanOut.cell d0Ref = some ⟨.mcD, 0⟩ := by
  refine ⟨?_, ?_, ?_⟩ <;> rfl

theorem fanOut_starShaped : StarShaped fanOut fanOut.mappings := by
  obtain ⟨hsrc, hdb, hd⟩ := fanOut_cells
  rw [fanOut_mappings]
  refine ⟨⟨?_, ?_⟩, ?_, ?_⟩ <;>
    simp [fanOutRule, hsrc, hdb, hd, Area.isBit]

set_option maxRecDepth 8192 in
theorem fanOut_inSync : ∀ r ∈ fanOut.mappings, r.InSync fanOut := by
  rw [fanOut_mappings]
  simp only [List.forall_mem_cons]
  refine ⟨⟨rfl, rfl, rfl, rfl⟩, ⟨rfl, rfl, rfl, rfl⟩, ?_⟩
  intro r hr
  cases hr

set_option maxRecDepth 8192 in
/-- A write to the second destination reaches the source and the first one. -/
theorem simultaneous_writes_fanOut :
    (fanOut.writeValues [(d0Ref, 7)]).syncMappings.syncMappings.readValue
        hr0Ref = 7 ∧
      (fanOut.writeValues [(d0Ref, 7)]).syncMappings.syncMappings.readValue
        db1Ref = 7 :=
  simultaneous_writes fanOut_starShaped fanOut_inSync [(d0Ref, 7)] _
    fanOutRule_mem

end VPlc
