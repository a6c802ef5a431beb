import Mathlib.Tactic.SplitIfs
import VPlc.Core.Mapping
import VPlc.Mirror.Basic

/-!
# The mapping engine is a list of links

`syncMappings` is `Mirror.pass` over what the rules name. A rule becomes a link
between the two cells, or between nothing and a cell when an address is past
the end or its area does not exist; the store becomes its `view`; and the
values a cell refuses are `cellNorm`. With `syncMappings_view` and
`syncMappings_links` in hand nothing below unfolds the engine again.

For rules between existing cells of one kind (`Wired`) the last of the three
falls away, and the engine is the one that writes values as they are.
-/

namespace VPlc

open Mirror (Link pass passes asIs)

/-- A rule as a link between what its addresses name. -/
def MappingRule.link (m : PlcMemory) (r : MappingRule) :
    Link (Option Cell) UInt16 where
  src := m.cell r.src
  dst := m.cell r.dst
  lastSrc := r.lastSrcVal
  lastDst := r.lastDstVal
  live := r.initialized

/-- The rules `rules` as links in the store `m`. -/
def PlcMemory.links (m : PlcMemory) (rules : List MappingRule) :
    List (Link (Option Cell) UInt16) :=
  rules.map (MappingRule.link m)

/-- The addresses of a rule, as text and parsed: what the engine never changes. -/
def MappingRule.refs (r : MappingRule) : String × String × MemoryRef × MemoryRef :=
  (r.srcRaw, r.dstRaw, r.src, r.dst)

/-- A rule with nothing to do: it is initialized, its endpoints agree, and it
has recorded the value they hold. -/
def MappingRule.InSync (m : PlcMemory) (r : MappingRule) : Prop :=
  r.initialized = true ∧ r.lastSrcVal = m.readValue r.src ∧
    r.lastDstVal = m.readValue r.dst ∧ m.readValue r.src = m.readValue r.dst

theorem MappingRule.inSync_iff {m : PlcMemory} {r : MappingRule} :
    r.InSync m ↔ (r.link m).Settled m.view := by
  unfold InSync Link.Settled
  rw [m.readValue_view, m.readValue_view]
  rfl

theorem MappingRule.link_congr {m m' : PlcMemory}
    (h : ∀ a, m'.size a = m.size a) (r : MappingRule) : r.link m' = r.link m := by
  unfold MappingRule.link
  rw [PlcMemory.cell_congr r.src h, PlcMemory.cell_congr r.dst h]

namespace PlcMemory

theorem links_congr {m m' : PlcMemory} (h : ∀ a, m'.size a = m.size a)
    (rules : List MappingRule) : m'.links rules = m.links rules :=
  List.map_congr_left fun r _ => MappingRule.link_congr h r

/-! ## One rule -/

theorem size_syncRule (m : PlcMemory) (r : MappingRule) (a : Area) :
    (m.syncRule r).1.size a = m.size a := by
  unfold syncRule
  dsimp only
  split_ifs <;> simp only [size_writeValue]

theorem refs_syncRule (m : PlcMemory) (r : MappingRule) :
    (m.syncRule r).2.refs = r.refs := by
  unfold syncRule
  dsimp only
  split_ifs <;> rfl

theorem link_move (m : PlcMemory) (r : MappingRule) :
    (r.link m).move m.view =
      if r.initialized then
        if m.readValue r.src ≠ r.lastSrcVal then .forward
        else if m.readValue r.dst ≠ r.lastDstVal then .back
        else if m.readValue r.src ≠ m.readValue r.dst then .forward
        else .idle
      else if m.readValue r.src ≠ m.readValue r.dst then .forward
      else .idle := by
  rw [readValue_view, readValue_view]
  rfl

/-- One turn of the loop is one step of the link. -/
theorem syncRule_step (m : PlcMemory) (r : MappingRule) :
    (m.syncRule r).1.view = ((r.link m).step cellNorm m.view).1 ∧
      (m.syncRule r).2.link m = ((r.link m).step cellNorm m.view).2 := by
  have hmove := link_move m r
  have hwrite : ∀ ref v, (m.writeValue ref v).view =
      Function.update m.view (m.cell ref) (cellNorm (m.cell ref) v) :=
    fun ref v => view_writeValue m ref v
  unfold syncRule
  dsimp only
  cases hlive : r.initialized with
  | false =>
      rw [hlive, if_neg Bool.false_ne_true] at hmove
      rw [if_pos (show (!false) = true from rfl)]
      split
      · next hne =>
          rw [if_pos hne] at hmove
          rw [Link.step_forward hmove, readValue_view]
          exact ⟨hwrite _ _, rfl⟩
      · next heq =>
          rw [if_neg heq] at hmove
          rw [Link.step_idle hmove, ← not_not.mp heq, readValue_view]
          exact ⟨rfl, rfl⟩
  | true =>
      rw [hlive, if_pos rfl] at hmove
      rw [if_neg (show ¬ (!true) = true by simp)]
      split
      · next hsrc =>
          rw [if_pos hsrc] at hmove
          rw [Link.step_forward hmove, readValue_view]
          refine ⟨hwrite _ _, ?_⟩
          simp only [MappingRule.link, Link.mark, hlive]
      · next hsrc =>
          rw [if_neg hsrc] at hmove
          split
          · next hdst =>
              rw [if_pos hdst] at hmove
              rw [Link.step_back hmove, readValue_view m r.dst]
              refine ⟨hwrite _ _, ?_⟩
              simp only [MappingRule.link, Link.mark, hlive]
          · next hdst =>
              rw [if_neg hdst] at hmove
              split
              · next hne =>
                  rw [if_pos hne] at hmove
                  rw [Link.step_forward hmove, readValue_view]
                  refine ⟨hwrite _ _, ?_⟩
                  simp only [MappingRule.link, Link.mark, hlive]
              · next heq =>
                  rw [if_neg heq] at hmove
                  have hset : (r.link m).Settled m.view :=
                    MappingRule.inSync_iff.mp ⟨hlive, (not_not.mp hsrc).symm,
                      (not_not.mp hdst).symm, not_not.mp heq⟩
                  rw [Link.step_of_settled hset]
                  exact ⟨rfl, rfl⟩

theorem syncRule_of_inSync {m : PlcMemory} {r : MappingRule}
    (h : r.InSync m) : m.syncRule r = (m, r) := by
  obtain ⟨hlive, hsrc, hdst, heq⟩ := h
  unfold syncRule
  dsimp only
  rw [if_neg (by simp [hlive]), if_neg (not_not.mpr hsrc.symm),
    if_neg (not_not.mpr hdst.symm), if_neg (not_not.mpr heq)]

/-! ## The loop -/

theorem size_syncRules (m : PlcMemory) (rules : List MappingRule) (a : Area) :
    (m.syncRules rules).1.size a = m.size a := by
  induction rules generalizing m with
  | nil => rfl
  | cons r rules ih => exact (ih _).trans (size_syncRule m r a)

theorem syncRules_pass (m : PlcMemory) (rules : List MappingRule) :
    (m.syncRules rules).1.view = (pass cellNorm m.view (m.links rules)).1 ∧
      m.links (m.syncRules rules).2 =
        (pass cellNorm m.view (m.links rules)).2 := by
  induction rules generalizing m with
  | nil => exact ⟨rfl, rfl⟩
  | cons r rules ih =>
      obtain ⟨hview, hlink⟩ := syncRule_step m r
      obtain ⟨hview', hlinks⟩ := ih (m.syncRule r).1
      have hsize := size_syncRule m r
      rw [links_congr hsize] at hview' hlinks
      rw [links_congr hsize] at hlinks
      rw [hview] at hview' hlinks
      refine ⟨hview', ?_⟩
      exact congrArg₂ List.cons hlink hlinks

theorem refs_syncRules (m : PlcMemory) (rules : List MappingRule) :
    (m.syncRules rules).2.map MappingRule.refs =
      rules.map MappingRule.refs := by
  induction rules generalizing m with
  | nil => rfl
  | cons r rules ih => exact congrArg₂ List.cons (refs_syncRule m r) (ih _)

theorem syncRules_of_inSync {m : PlcMemory} {rules : List MappingRule}
    (h : ∀ r ∈ rules, r.InSync m) : m.syncRules rules = (m, rules) := by
  induction rules with
  | nil => rfl
  | cons r rules ih =>
      unfold syncRules
      rw [syncRule_of_inSync (h r List.mem_cons_self)]
      dsimp only
      rw [ih fun r' hr' => h r' (List.mem_cons_of_mem _ hr')]

/-! ## `syncMappings` -/

@[simp] theorem size_syncMappings (m : PlcMemory) (a : Area) :
    m.syncMappings.size a = m.size a := by
  have h : m.syncMappings.size a = (m.syncRules m.mappings).1.size a := by
    cases a <;> rfl
  rw [h, size_syncRules]

@[simp] theorem cell_syncMappings (m : PlcMemory) (ref : MemoryRef) :
    m.syncMappings.cell ref = m.cell ref :=
  cell_congr ref (size_syncMappings m)

theorem syncMappings_view (m : PlcMemory) :
    m.syncMappings.view = (pass cellNorm m.view (m.links m.mappings)).1 := by
  rw [← (syncRules_pass m m.mappings).1]
  rfl

theorem syncMappings_links (m : PlcMemory) :
    m.syncMappings.links m.syncMappings.mappings =
      (pass cellNorm m.view (m.links m.mappings)).2 := by
  rw [links_congr (size_syncMappings m), ← (syncRules_pass m m.mappings).2]
  rfl

/-- The engine never changes what a rule is between. -/
theorem refs_syncMappings (m : PlcMemory) :
    m.syncMappings.mappings.map MappingRule.refs =
      m.mappings.map MappingRule.refs :=
  refs_syncRules m m.mappings

/-- With every rule in sync a pass changes neither the store nor the rules. -/
theorem syncMappings_of_inSync {m : PlcMemory}
    (h : ∀ r ∈ m.mappings, r.InSync m) : m.syncMappings = m := by
  unfold syncMappings
  rw [syncRules_of_inSync h]

theorem inSync_iff_settled {m : PlcMemory} {rules : List MappingRule} :
    (∀ r ∈ rules, r.InSync m) ↔ ∀ l ∈ m.links rules, l.Settled m.view := by
  constructor
  · intro h l hl
    obtain ⟨r, hr, rfl⟩ := List.mem_map.mp hl
    exact MappingRule.inSync_iff.mp (h r hr)
  · intro h r hr
    exact MappingRule.inSync_iff.mpr (h _ (List.mem_map_of_mem hr))

theorem mem_of_refs {rs rs' : List MappingRule}
    (h : rs'.map MappingRule.refs = rs.map MappingRule.refs)
    {r' : MappingRule} (hr' : r' ∈ rs') :
    ∃ r ∈ rs, r.src = r'.src ∧ r.dst = r'.dst := by
  have hmem : r'.refs ∈ rs.map MappingRule.refs := by
    rw [← h]; exact List.mem_map_of_mem hr'
  obtain ⟨r, hr, he⟩ := List.mem_map.mp hmem
  simp only [MappingRule.refs, Prod.mk.injEq] at he
  exact ⟨r, hr, he.2.2.1, he.2.2.2⟩

end PlcMemory

/-! ## Rules between cells of one kind -/

/-- Every address names a cell, and the two cells of a rule are both bits or
both words. -/
structure Wired (m : PlcMemory) (rules : List MappingRule) : Prop where
  inRange : ∀ r ∈ rules, (m.cell r.src).isSome ∧ (m.cell r.dst).isSome
  sameKind : ∀ r ∈ rules, ∀ c d, m.cell r.src = some c →
    m.cell r.dst = some d → c.area.isBit = d.area.isBit

namespace Wired

variable {m : PlcMemory} {rules : List MappingRule}

theorem norm_eq (h : Wired m rules) :
    ∀ l ∈ m.links rules, cellNorm l.src = cellNorm l.dst := by
  intro l hl
  obtain ⟨r, hr, rfl⟩ := List.mem_map.mp hl
  obtain ⟨hs, hd⟩ := h.inRange r hr
  obtain ⟨c, hc⟩ := Option.isSome_iff_exists.mp hs
  obtain ⟨d, hd⟩ := Option.isSome_iff_exists.mp hd
  have hkind := h.sameKind r hr c d hc hd
  simp only [MappingRule.link, hc, hd]
  funext v
  simp only [cellNorm, Area.norm, hkind]

theorem of_refs {rules' : List MappingRule} (h : Wired m rules)
    (hrefs : rules'.map MappingRule.refs = rules.map MappingRule.refs) :
    Wired m rules' := by
  constructor
  · intro r' hr'
    obtain ⟨r, hr, hs, hd⟩ := PlcMemory.mem_of_refs hrefs hr'
    rw [← hs, ← hd]
    exact h.inRange r hr
  · intro r' hr' c d hc hd'
    obtain ⟨r, hr, hs, hd⟩ := PlcMemory.mem_of_refs hrefs hr'
    rw [← hs] at hc
    rw [← hd] at hd'
    exact h.sameKind r hr c d hc hd'

theorem of_size {m' : PlcMemory} (h : Wired m rules)
    (hsize : ∀ a, m'.size a = m.size a) : Wired m' rules := by
  constructor
  · intro r hr
    rw [PlcMemory.cell_congr r.src hsize, PlcMemory.cell_congr r.dst hsize]
    exact h.inRange r hr
  · intro r hr c d
    rw [PlcMemory.cell_congr r.src hsize, PlcMemory.cell_congr r.dst hsize]
    exact h.sameKind r hr c d

theorem pass_eq (h : Wired m rules) :
    pass cellNorm m.view (m.links rules) = pass asIs m.view (m.links rules) :=
  Mirror.pass_eq_asIs m.norm_view h.norm_eq

theorem after (h : Wired m m.mappings) :
    Wired m.syncMappings m.syncMappings.mappings :=
  (h.of_refs m.refs_syncMappings).of_size m.size_syncMappings

theorem iterate (h : Wired m m.mappings) (n : Nat) :
    (PlcMemory.syncMappings^[n] m).view =
        (passes asIs n (m.view, m.links m.mappings)).1 ∧
      (PlcMemory.syncMappings^[n] m).links
          (PlcMemory.syncMappings^[n] m).mappings =
        (passes asIs n (m.view, m.links m.mappings)).2 := by
  induction n generalizing m with
  | zero => exact ⟨rfl, rfl⟩
  | succ n ih =>
      obtain ⟨hview, hlinks⟩ := ih h.after
      rw [Mirror.passes_succ, Function.iterate_succ_apply]
      rw [m.syncMappings_view, m.syncMappings_links, h.pass_eq] at hview hlinks
      exact ⟨hview, hlinks⟩

end Wired

end VPlc
