import VPlc.Proofs.MappingStar

/-!
# Reloading the rules that are in force

Reading the rule file again gives the same rules, none of which has seen
anything yet. Such rules take their sources' word. Rules that have been in sync
would have noticed a destination that changed and carried its value back, so a
reload goes unnoticed unless a client has written to a destination since the
last pass and to its source not (`reload_transparent`); then the write is lost.
-/

namespace VPlc

open Mirror (Link Star pass asIs)

namespace PlcMemory

theorem itemRules_fresh {items : List MappingItem} {rules : List MappingRule}
    (h : itemRules items = some rules) : ∀ r ∈ rules, r.initialized = false := by
  induction items generalizing rules with
  | nil =>
      cases h
      intro r hr
      cases hr
  | cons item items ih =>
      cases item with
      | illTyped => cases h
      | entry src dst =>
          obtain ⟨rest, hrest, rfl⟩ := Option.map_eq_some_iff.mp h
          intro r hr
          rcases List.mem_append.mp hr with hr | hr
          · have hrule : itemRule src dst = some r := Option.mem_toList.mp hr
            unfold itemRule at hrule
            split at hrule
            · cases hrule
            · split at hrule
              · cases hrule
                rfl
              · cases hrule
          · exact ih hrest r hr

/-- What no rule names, a pass leaves alone. -/
theorem syncMappings_frame {m : PlcMemory} {k : Option Cell}
    (h : ∀ r ∈ m.mappings, m.cell r.src ≠ k ∧ m.cell r.dst ≠ k) :
    m.syncMappings.view k = m.view k := by
  rw [m.syncMappings_view]
  refine Mirror.pass_frame cellNorm m.view ?_
  intro l hl
  obtain ⟨r, hr, rfl⟩ := List.mem_map.mp hl
  exact h r hr

theorem ext_view {m m' : PlcMemory} (hsize : ∀ a, m.size a = m'.size a)
    (hview : m.view = m'.view) (hmappings : m.mappings = m'.mappings) : m = m' :=
  ext_get hsize (fun a i => congrFun hview (some ⟨a, i⟩)) hmappings

theorem rules_eq_of_inSync {m m' : PlcMemory} (hsize : ∀ a, m.size a = m'.size a)
    (hview : m.view = m'.view) {rs rs' : List MappingRule}
    (hrefs : rs.map MappingRule.refs = rs'.map MappingRule.refs)
    (h : ∀ r ∈ rs, r.InSync m) (h' : ∀ r ∈ rs', r.InSync m') : rs = rs' := by
  have hread : ∀ ref, m.readValue ref = m'.readValue ref := by
    intro ref
    rw [readValue_view, readValue_view, hview, cell_congr ref hsize]
  induction rs generalizing rs' with
  | nil => exact (List.map_eq_nil_iff.mp hrefs.symm).symm
  | cons r rs ih =>
      cases rs' with
      | nil => cases hrefs
      | cons r' rs' =>
          obtain ⟨hhead, htail⟩ := List.cons.inj hrefs
          obtain ⟨hlive, hsrc, hdst, -⟩ := h r List.mem_cons_self
          obtain ⟨hlive', hsrc', hdst', -⟩ := h' r' List.mem_cons_self
          simp only [MappingRule.refs, Prod.mk.injEq] at hhead
          obtain ⟨hsraw, hdraw, hs, hd⟩ := hhead
          have hrule : r = r' := by
            rw [hread, hs, ← hsrc'] at hsrc
            rw [hread, hd, ← hdst'] at hdst
            cases r
            cases r'
            simp only [MappingRule.mk.injEq]
            exact ⟨hsraw, hdraw, hs, hd, hsrc, hdst, hlive.trans hlive'.symm⟩
          rw [hrule, ih htail (fun q hq => h q (List.mem_cons_of_mem _ hq))
            fun q hq => h' q (List.mem_cons_of_mem _ hq)]

end PlcMemory

/-! ## With and without a reload -/

/-- A destination was written to since `m` and its source was not. -/
def Pending (m m' : PlcMemory) (r : MappingRule) : Prop :=
  m'.readValue r.dst ≠ m.readValue r.dst ∧ m'.readValue r.src = m.readValue r.src

section Reload

variable {m m' : PlcMemory}

theorem starWinner_eq_source {r : MappingRule} :
    starWinner m m' r = m'.readValue r.src ↔
      (m'.readValue r.src = m.readValue r.src →
        ∀ q ∈ m.mappings, m.cell q.src = m.cell r.src →
          m'.readValue q.dst = m.readValue r.src) := by
  simp only [starWinner]
  split
  · next hsrc => exact ⟨fun _ hsame => absurd hsame hsrc, fun _ => rfl⟩
  · next hsrc =>
      have hsame := not_not.mp hsrc
      rw [hsame]
      constructor
      · intro hwin _ q hq hstar
        by_contra hne
        cases hfind : List.find? (fun w => decide (w ≠ m.readValue r.src))
            ((m.mappings.filter fun q => m.cell q.src = m.cell r.src).map
              fun q => m'.readValue q.dst) with
        | none =>
            refine List.find?_eq_none.mp hfind (m'.readValue q.dst) ?_ (decide_eq_true hne)
            exact List.mem_map_of_mem (List.mem_filter.mpr ⟨hq, decide_eq_true hstar⟩)
        | some w =>
            rw [hfind, Option.getD_some] at hwin
            have hchanged := List.find?_some hfind
            exact of_decide_eq_true hchanged hwin
      · intro hall
        have hnone : List.find? (fun w => decide (w ≠ m.readValue r.src))
            ((m.mappings.filter fun q => m.cell q.src = m.cell r.src).map
              fun q => m'.readValue q.dst) = none := by
          rw [List.find?_eq_none]
          intro w hw
          obtain ⟨q, hq, rfl⟩ := List.mem_map.mp hw
          obtain ⟨hq, hstar⟩ := List.mem_filter.mp hq
          simpa using hall rfl q hq (of_decide_eq_true hstar)
        rw [hnone, Option.getD_none]

/-- No write is pending just when every source is the winner of its star. -/
theorem no_pending_iff (hsync : ∀ r ∈ m.mappings, r.InSync m)
    (hcell : ∀ ref, m'.cell ref = m.cell ref) :
    (∀ r ∈ m.mappings, ¬ Pending m m' r) ↔
      ∀ r ∈ m.mappings, starWinner m m' r = m'.readValue r.src := by
  constructor
  · intro h r hr
    rw [starWinner_eq_source]
    intro hsame q hq hstar
    have hsrc : m.readValue q.src = m.readValue r.src := by
      rw [m.readValue_view, m.readValue_view, hstar]
    have hsrc' : m'.readValue q.src = m'.readValue r.src := by
      rw [m'.readValue_view, m'.readValue_view, hcell, hcell, hstar]
    by_contra hne
    refine h q hq ⟨?_, ?_⟩
    · rwa [← (hsync q hq).2.2.2, hsrc]
    · rw [hsrc', hsame, hsrc]
  · rintro h r hr ⟨hdst, hsrc⟩
    refine hdst ?_
    rw [← (hsync r hr).2.2.2]
    exact starWinner_eq_source.mp (h r hr) hsrc r hr rfl

/-- What two passes leave of the cells. -/
theorem view_after_two (h : StarShaped m m.mappings) {r : MappingRule} (hr : r ∈ m.mappings) :
    m.syncMappings.syncMappings.view (m.cell r.src) =
        m.syncMappings.readValue r.src ∧
      m.syncMappings.syncMappings.view (m.cell r.dst) =
        m.syncMappings.readValue r.src := by
  have hread := h.read_after_two hr
  rwa [PlcMemory.readValue_view, PlcMemory.readValue_view _ r.dst, PlcMemory.cell_syncMappings,
    PlcMemory.cell_syncMappings, PlcMemory.cell_syncMappings, PlcMemory.cell_syncMappings]
    at hread

theorem frame_after_two {k : Option Cell}
    (hk : ∀ r ∈ m.mappings, m.cell r.src ≠ k ∧ m.cell r.dst ≠ k) :
    m.syncMappings.syncMappings.view k = m.view k := by
  have hk' : ∀ r ∈ m.syncMappings.mappings,
      m.syncMappings.cell r.src ≠ k ∧ m.syncMappings.cell r.dst ≠ k := by
    intro r hr
    obtain ⟨q, hq, hs, hd⟩ := PlcMemory.mem_of_refs m.refs_syncMappings hr
    rw [PlcMemory.cell_syncMappings, PlcMemory.cell_syncMappings, ← hs, ← hd]
    exact hk q hq
  rw [PlcMemory.syncMappings_frame hk', PlcMemory.syncMappings_frame hk]

/-- `n` is `m'` after its own rules have been read again. -/
structure Reloaded (m' n : PlcMemory) : Prop where
  view : n.view = m'.view
  size : ∀ a, n.size a = m'.size a
  refs : n.mappings.map MappingRule.refs = m'.mappings.map MappingRule.refs
  fresh : ∀ r ∈ n.mappings, r.initialized = false

theorem reloaded_loadMappings {items : List PlcMemory.MappingItem}
    (h : (PlcMemory.itemRules items).map (List.map MappingRule.refs) =
      some (m'.mappings.map MappingRule.refs)) :
    Reloaded m' (m'.loadMappings (some items)).1 := by
  obtain ⟨rules, hparsed, hrefs⟩ := Option.map_eq_some_iff.mp h
  have hload : (m'.loadMappings (some items)).1 = { m' with mappings := rules } := by
    rw [PlcMemory.loadMappings, Option.bind_some, hparsed]
  rw [hload]
  exact ⟨rfl, fun a => by cases a <;> rfl, hrefs, PlcMemory.itemRules_fresh hparsed⟩

namespace Reloaded

variable {n : PlcMemory}

theorem cell (h : Reloaded m' n) (ref : MemoryRef) : n.cell ref = m'.cell ref :=
  PlcMemory.cell_congr ref h.size

theorem readValue (h : Reloaded m' n) (ref : MemoryRef) :
    n.readValue ref = m'.readValue ref := by
  rw [n.readValue_view, m'.readValue_view, h.view, h.cell]

theorem starShaped (h : Reloaded m' n) (hshape : StarShaped m' m'.mappings) :
    StarShaped n n.mappings :=
  (hshape.of_refs h.refs).of_size h.size

theorem follows (h : Reloaded m' n) : ∀ l ∈ n.links n.mappings, l.Follows n.view := by
  intro l hl
  obtain ⟨r, hr, rfl⟩ := List.mem_map.mp hl
  exact Or.inl (h.fresh r hr)

theorem inSync_two (h : Reloaded m' n) (hshape : StarShaped m' m'.mappings) :
    ∀ r ∈ n.syncMappings.syncMappings.mappings, r.InSync n.syncMappings.syncMappings := by
  have hsync := (h.starShaped hshape).inSync_after_follows h.follows
  rw [PlcMemory.syncMappings_of_inSync hsync]
  exact hsync

/-- Both ends of a rule come to hold what its source held at the reload. -/
theorem ends (h : Reloaded m' n) (hshape : StarShaped m' m'.mappings)
    {r : MappingRule} (hr : r ∈ m'.mappings) :
    n.syncMappings.syncMappings.view (m'.cell r.src) = m'.readValue r.src ∧
      n.syncMappings.syncMappings.view (m'.cell r.dst) = m'.readValue r.src := by
  obtain ⟨q, hq, hs, hd⟩ := PlcMemory.mem_of_refs h.refs.symm hr
  have hends := view_after_two (h.starShaped hshape) hq
  rwa [((h.starShaped hshape).read_after_follows h.follows hq).1, h.cell, h.cell, hs, hd,
    h.readValue] at hends

theorem frame (h : Reloaded m' n) {k : Option Cell}
    (hk : ∀ r ∈ m'.mappings, m'.cell r.src ≠ k ∧ m'.cell r.dst ≠ k) :
    n.syncMappings.syncMappings.view k = m'.view k := by
  rw [← h.view]
  refine frame_after_two ?_
  intro r hr
  obtain ⟨q, hq, hs, hd⟩ := PlcMemory.mem_of_refs h.refs hr
  rw [h.cell, h.cell, ← hs, ← hd]
  exact hk q hq

/-- The two stores agree just when every star's winner is its source. -/
theorem view_eq_iff (h : Reloaded m' n) (hshape : StarShaped m' m'.mappings)
    {winner : MappingRule → UInt16}
    (hwinner : ∀ r ∈ m'.mappings, m'.syncMappings.readValue r.src = winner r) :
    n.syncMappings.syncMappings.view = m'.syncMappings.syncMappings.view ↔
      ∀ r ∈ m'.mappings, winner r = m'.readValue r.src := by
  have hends : ∀ r ∈ m'.mappings,
      m'.syncMappings.syncMappings.view (m'.cell r.src) = winner r ∧
        m'.syncMappings.syncMappings.view (m'.cell r.dst) = winner r := by
    intro r hr
    rw [← hwinner r hr]
    exact view_after_two hshape hr
  constructor
  · intro heq r hr
    rw [← (hends r hr).1, ← (h.ends hshape hr).1, heq]
  · intro hwin
    funext k
    by_cases hk : ∀ r ∈ m'.mappings, m'.cell r.src ≠ k ∧ m'.cell r.dst ≠ k
    · rw [h.frame hk, frame_after_two hk]
    · push Not at hk
      obtain ⟨r, hr, hend⟩ := hk
      by_cases hsrc : m'.cell r.src = k
      · rw [← hsrc, (h.ends hshape hr).1, (hends r hr).1, hwin r hr]
      · rw [← hend hsrc, (h.ends hshape hr).2, (hends r hr).2, hwin r hr]

end Reloaded

/-- A rule list in sync, whatever has been written since, and two passes: to have
read the same list again makes no difference to any cell just when no write is
pending, and then it makes none to the rules' records either. -/
theorem reload_transparent (h : StarShaped m m.mappings)
    (hsync : ∀ r ∈ m.mappings, r.InSync m) (hsize : ∀ a, m'.size a = m.size a)
    (hrules : m'.mappings = m.mappings) {items : List PlcMemory.MappingItem}
    (hitems : (PlcMemory.itemRules items).map (List.map MappingRule.refs) =
      some (m'.mappings.map MappingRule.refs)) :
    ((∀ a i, (m'.loadMappings (some items)).1.syncMappings.syncMappings.get a i =
        m'.syncMappings.syncMappings.get a i) ↔ ∀ r ∈ m.mappings, ¬ Pending m m' r) ∧
      ((∀ r ∈ m.mappings, ¬ Pending m m' r) →
        (m'.loadMappings (some items)).1.syncMappings.syncMappings =
          m'.syncMappings.syncMappings) := by
  have hreload := reloaded_loadMappings hitems
  obtain ⟨n, hn⟩ : ∃ n, (m'.loadMappings (some items)).1 = n := ⟨_, rfl⟩
  rw [hn] at hreload ⊢
  have hshape : StarShaped m' m'.mappings := by
    rw [hrules]; exact h.of_size hsize
  have hview : n.syncMappings.syncMappings.view = m'.syncMappings.syncMappings.view ↔
      ∀ r ∈ m.mappings, ¬ Pending m m' r := by
    rw [no_pending_iff hsync fun ref => PlcMemory.cell_congr ref hsize, ← hrules]
    refine hreload.view_eq_iff hshape ?_
    intro r hr
    exact h.arbitrate hsync hsize hrules (by rwa [← hrules])
  constructor
  · rw [← hview]
    constructor
    · intro hget
      funext k
      cases k with
      | none => rfl
      | some c => exact hget c.area c.index
    · intro heq a i
      exact congrFun heq (some ⟨a, i⟩)
  · intro hpending
    have hsizes : ∀ a, n.syncMappings.syncMappings.size a =
        m'.syncMappings.syncMappings.size a := by
      intro a
      simp only [PlcMemory.size_syncMappings, hreload.size]
    refine PlcMemory.ext_view hsizes (hview.mpr hpending) ?_
    refine PlcMemory.rules_eq_of_inSync hsizes (hview.mpr hpending) ?_
      (hreload.inSync_two hshape) (hshape.after.inSync_after hshape.held_after)
    rw [PlcMemory.refs_syncMappings, PlcMemory.refs_syncMappings,
      PlcMemory.refs_syncMappings, PlcMemory.refs_syncMappings, hreload.refs]

end Reload

/-! ## The fan-out, read again -/

/-- The document the fan-out was loaded from. -/
def fanOutItems : List PlcMemory.MappingItem :=
  [.entry "MODBUS.HR.0" "S7.DB1.W.0", .entry "MODBUS.HR.0" "MC.D.0"]

theorem fanOutItems_refs {m : PlcMemory} (h : m.mappings = fanOut.mappings) :
    (PlcMemory.itemRules fanOutItems).map (List.map MappingRule.refs) =
      some (m.mappings.map MappingRule.refs) := by
  rw [h, fanOut_mappings]
  rfl

/-- The fan-out after a client has written seven to the MELSEC word. -/
def fanOutPending : PlcMemory := fanOut.writeValue d0Ref 7

theorem fanOutPending_mappings : fanOutPending.mappings = fanOut.mappings :=
  PlcMemory.mappings_writeValue fanOut d0Ref 7

theorem fanOutPending_size (a : Area) : fanOutPending.size a = fanOut.size a :=
  PlcMemory.size_writeValue fanOut d0Ref 7 a

theorem fanOutPending_starShaped : StarShaped fanOutPending fanOutPending.mappings :=
  fanOut_starShaped.writeValue d0Ref 7

set_option maxRecDepth 8192 in
/-- The engine would have carried the seven to the register; a reload undoes the
write instead. -/
theorem reload_loses_write :
    (StarShaped fanOut fanOut.mappings ∧ ∀ r ∈ fanOut.mappings, r.InSync fanOut) ∧
      fanOutPending.syncMappings.syncMappings.readValue d0Ref = 7 ∧
      (fanOutPending.loadMappings
        (some fanOutItems)).1.syncMappings.syncMappings.readValue d0Ref = 0 := by
  obtain ⟨rule, hrule⟩ : ∃ rule : MappingRule,
      rule = ⟨"MODBUS.HR.0", "MC.D.0", hr0Ref, d0Ref, 0, 0, true⟩ := ⟨_, rfl⟩
  have hmem : rule ∈ fanOut.mappings := by
    rw [hrule, fanOut_mappings]
    exact List.mem_cons_of_mem _ List.mem_cons_self
  have hmem' : rule ∈ fanOutPending.mappings := by rwa [fanOutPending_mappings]
  have hdst : rule.dst = d0Ref := by rw [hrule]
  have hreload := reloaded_loadMappings (fanOutItems_refs fanOutPending_mappings)
  refine ⟨⟨fanOut_starShaped, fanOut_inSync⟩, ?_, ?_⟩
  · rw [← hdst, (fanOutPending_starShaped.read_after_two hmem').2,
      fanOut_starShaped.arbitrate fanOut_inSync fanOutPending_size fanOutPending_mappings hmem,
      hrule]
    rfl
  · have hends := (hreload.ends fanOutPending_starShaped hmem').2
    rw [← hreload.cell, ← PlcMemory.cell_syncMappings, ← PlcMemory.cell_syncMappings,
      ← PlcMemory.readValue_view, hdst] at hends
    rw [hends, hrule]
    rfl

set_option maxRecDepth 8192 in
/-- A write to the register survives it. -/
theorem reload_transparent_fanOut :
    ((fanOut.writeValue hr0Ref 9).loadMappings
        (some fanOutItems)).1.syncMappings.syncMappings =
      (fanOut.writeValue hr0Ref 9).syncMappings.syncMappings := by
  have hrules := PlcMemory.mappings_writeValue fanOut hr0Ref 9
  refine (reload_transparent fanOut_starShaped fanOut_inSync
    (PlcMemory.size_writeValue fanOut hr0Ref 9) hrules (fanOutItems_refs hrules)).2 ?_
  rw [fanOut_mappings]
  simp only [List.forall_mem_cons]
  refine ⟨fun h => ?_, fun h => ?_, ?_⟩
  · exact absurd h.2 (by decide)
  · exact absurd h.2 (by decide)
  · intro r hr
    cases hr

end VPlc
