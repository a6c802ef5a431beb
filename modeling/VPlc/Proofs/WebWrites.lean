import VPlc.Proofs.MappingStar
import VPlc.Web.MemoryApi

/-!
# Writes through the web, one after another

Each write through the web is followed by one pass, and one pass is not enough
to carry a destination's value to the rules listed before it. Such a rule is
stale: it has not seen the value its source holds now. A write to its own
destination in that moment is taken for the older of the two changes and
overwritten, so the last writer does not always win.

`last_writer_wins_iff` says when he does. Every star is left held by the pass
after a write (`held_webWrites`), a write to a held star is decided on the spot
by whether its rule had seen the source (`source_after_webWrite`), writes to
other stars leave the source alone, and two further passes bring everyone to
the source's value.
-/

namespace VPlc

open Mirror (Link Star pass asIs)

namespace PlcMemory

/-- A sequence of web writes. -/
def webWrites (m : PlcMemory) (ws : List (MemoryRef × UInt16)) : PlcMemory :=
  ws.foldl (fun m w => m.webWrite w.1 w.2) m

@[simp] theorem size_webWrite (m : PlcMemory) (ref : MemoryRef) (v : UInt16)
    (a : Area) : (m.webWrite ref v).size a = m.size a := by
  unfold webWrite
  rw [size_syncMappings, size_writeValue]

theorem refs_webWrite (m : PlcMemory) (ref : MemoryRef) (v : UInt16) :
    (m.webWrite ref v).mappings.map MappingRule.refs =
      m.mappings.map MappingRule.refs := by
  unfold webWrite
  rw [refs_syncMappings, mappings_writeValue]

end PlcMemory

/-- What a web write finds and leaves: the rules by name, the sizes, and every
link held. -/
structure SameStars (m₀ m : PlcMemory) : Prop where
  size : ∀ a, m.size a = m₀.size a
  refs : m.mappings.map MappingRule.refs = m₀.mappings.map MappingRule.refs
  held : AllHeld m

namespace SameStars

variable {m₀ m : PlcMemory}

theorem cell (h : SameStars m₀ m) (ref : MemoryRef) : m.cell ref = m₀.cell ref :=
  PlcMemory.cell_congr ref h.size

theorem shape (h : SameStars m₀ m) (hshape : StarShaped m₀ m₀.mappings) :
    StarShaped m m.mappings :=
  (hshape.of_refs h.refs).of_size h.size

theorem webWrite (h : SameStars m₀ m) (hshape : StarShaped m₀ m₀.mappings)
    (ref : MemoryRef) (v : UInt16) : SameStars m₀ (m.webWrite ref v) where
  size a := (PlcMemory.size_webWrite m ref v a).trans (h.size a)
  refs := (m.refs_webWrite ref v).trans h.refs
  held := ((h.shape hshape).writeValue ref v).held_after

theorem webWrites (h : SameStars m₀ m) (hshape : StarShaped m₀ m₀.mappings)
    (ws : List (MemoryRef × UInt16)) : SameStars m₀ (m.webWrites ws) := by
  induction ws generalizing m with
  | nil => exact h
  | cons w ws ih => exact ih (h.webWrite hshape w.1 w.2)

end SameStars

/-- The write reaches a cell whose rule knows better: it goes to a source, or
to a destination whose rule has recorded the value the source holds now, or it
writes that value again. -/
def Fresh (m : PlcMemory) (ref : MemoryRef) (v : UInt16) : Prop :=
  ∀ r ∈ m.mappings, m.cell ref = m.cell r.dst →
    r.lastSrcVal = m.readValue r.src ∨
      (m.writeValue ref v).readValue ref = m.readValue r.src

section Star

variable {m : PlcMemory} {r : MappingRule}

theorem view_webWrite (h : StarShaped m m.mappings) (ref : MemoryRef)
    (v : UInt16) :
    (m.webWrite ref v).view =
      (pass asIs
        (Function.update m.view (m.cell ref) (cellNorm (m.cell ref) v))
        (m.links m.mappings)).1 := by
  unfold PlcMemory.webWrite
  rw [(h.writeValue ref v).view_after, PlcMemory.mappings_writeValue,
    PlcMemory.view_writeValue,
    PlcMemory.links_congr fun a => PlcMemory.size_writeValue m ref v a]

theorem readValue_webWrite (ref q : MemoryRef) (v : UInt16) :
    (m.webWrite ref v).readValue q = (m.webWrite ref v).view (m.cell q) := by
  rw [PlcMemory.readValue_view]
  unfold PlcMemory.webWrite
  rw [PlcMemory.cell_syncMappings, PlcMemory.cell_writeValue]

theorem source_of_not_inStar (h : StarShaped m m.mappings) (hheld : AllHeld m)
    (hr : r ∈ m.mappings) {ref : MemoryRef} {v : UInt16}
    (hout : ¬ InStar m r (m.cell ref)) :
    (m.webWrite ref v).readValue r.src = m.readValue r.src := by
  have hsrc : m.cell ref ≠ m.cell r.src := fun he => hout (Or.inl he)
  rw [readValue_webWrite, view_webWrite h, h.star.pass_source]
  · rw [Function.update_of_ne hsrc.symm, m.readValue_view]
  · intro l hl
    exact h.star.leaf l hl (r.link m) (List.mem_map_of_mem hr)
  · intro l hl hls
    refine (hheld l hl).of_eq (Function.update_of_ne ?_ _ _)
    intro he
    obtain ⟨q, hq, rfl⟩ := List.mem_map.mp hl
    exact hout (Or.inr ⟨q, hq, hls, he.symm⟩)

theorem source_of_write_src (h : StarShaped m m.mappings) (hheld : AllHeld m)
    (hr : r ∈ m.mappings) {ref : MemoryRef} {v : UInt16}
    (hin : m.cell ref = m.cell r.src) :
    (m.webWrite ref v).readValue r.src = cellNorm (m.cell ref) v := by
  rw [readValue_webWrite, view_webWrite h, h.star.pass_source]
  · rw [hin, Function.update_self]
  · intro l hl
    exact h.star.leaf l hl (r.link m) (List.mem_map_of_mem hr)
  · intro l hl hls
    refine (hheld l hl).of_eq (Function.update_of_ne ?_ _ _)
    rw [hin]
    exact h.star.leaf l hl (r.link m) (List.mem_map_of_mem hr)

/-- A write to a destination reaches the source if the rule had seen it. -/
theorem source_of_write_dst (h : StarShaped m m.mappings) (hheld : AllHeld m)
    (hr : r ∈ m.mappings) {ref : MemoryRef} {v : UInt16}
    (hin : m.cell ref = m.cell r.dst) :
    (m.webWrite ref v).readValue r.src =
      if m.readValue r.src = r.lastSrcVal then cellNorm (m.cell ref) v
      else m.readValue r.src := by
  have hlink : r.link m ∈ m.links m.mappings := List.mem_map_of_mem hr
  have hwrite := h.star.pass_write_dst (w := cellNorm (m.cell ref) v) hheld hlink
  rw [readValue_webWrite, view_webWrite h, m.readValue_view, hin]
  rw [hin] at hwrite
  exact hwrite

/-- So a write to a star is what its source holds afterwards exactly if it was
fresh. -/
theorem source_after_webWrite (h : StarShaped m m.mappings)
    (hheld : AllHeld m) (hr : r ∈ m.mappings) {ref : MemoryRef} {v : UInt16}
    (hin : InStar m r (m.cell ref)) :
    (m.webWrite ref v).readValue r.src = cellNorm (m.cell ref) v ↔
      Fresh m ref v := by
  unfold Fresh
  rw [readValue_writeValue_self]
  rcases hin with hsrc | ⟨q, hq, hqs, hqd⟩
  · refine iff_of_true (source_of_write_src h hheld hr hsrc) ?_
    intro q hq hqd
    exact absurd (hqd.symm.trans hsrc) (h.leaf q hq r hr)
  · have hval : m.readValue r.src = m.readValue q.src := by
      rw [m.readValue_view, m.readValue_view, hqs]
    have hnew : (m.webWrite ref v).readValue r.src =
        (m.webWrite ref v).readValue q.src := by
      rw [readValue_webWrite, readValue_webWrite, hqs]
    rw [hnew, source_of_write_dst h hheld hq hqd]
    -- Only the rule of the written destination is in question.
    have honly : ∀ q' ∈ m.mappings, m.cell ref = m.cell q'.dst → q' = q := by
      intro q' hq' hd
      exact List.inj_on_of_nodup_map h.once hq' hq (hd.symm.trans hqd)
    constructor
    · intro hfinal q' hq' hd
      rw [honly q' hq' hd]
      split at hfinal
      · next hseen => exact Or.inl hseen.symm
      · exact Or.inr hfinal.symm
    · intro hfresh
      rcases hfresh q hq hqd with hseen | hsame
      · rw [if_pos hseen.symm]
      · split
        · rfl
        · exact hsame.symm

end Star

/-! ## A sequence of writes -/

namespace SameStars

variable {m₀ m : PlcMemory} {r₀ : MappingRule}

theorem rule (h : SameStars m₀ m) (hr₀ : r₀ ∈ m₀.mappings) :
    ∃ q ∈ m.mappings, q.src = r₀.src ∧ q.dst = r₀.dst :=
  PlcMemory.mem_of_refs h.refs.symm hr₀

theorem inStar (h : SameStars m₀ m) (k : Option Cell) :
    InStar m r₀ k ↔ InStar m₀ r₀ k := by
  unfold InStar
  simp only [h.cell]
  refine or_congr_right ⟨?_, ?_⟩
  · rintro ⟨q, hq, hqs, hqd⟩
    obtain ⟨q', hq', hs', hd'⟩ := PlcMemory.mem_of_refs h.refs hq
    exact ⟨q', hq', by rw [hs', hqs], by rw [hd', hqd]⟩
  · rintro ⟨q, hq, hqs, hqd⟩
    obtain ⟨q', hq', hs', hd'⟩ := PlcMemory.mem_of_refs h.refs.symm hq
    exact ⟨q', hq', by rw [hs', hqs], by rw [hd', hqd]⟩

theorem source_webWrites (h : SameStars m₀ m)
    (hshape : StarShaped m₀ m₀.mappings) (hr₀ : r₀ ∈ m₀.mappings)
    {ws : List (MemoryRef × UInt16)}
    (hws : ∀ w ∈ ws, ¬ InStar m₀ r₀ (m₀.cell w.1)) :
    (m.webWrites ws).readValue r₀.src = m.readValue r₀.src := by
  induction ws generalizing m with
  | nil => rfl
  | cons w ws ih =>
      obtain ⟨q, hq, hqs, -⟩ := h.rule hr₀
      have hout : ¬ InStar m q (m.cell w.1) := by
        have hstar : InStar m q = InStar m r₀ := by unfold InStar; rw [hqs]
        rw [hstar, h.cell, h.inStar]
        exact hws w List.mem_cons_self
      have hone := source_of_not_inStar (v := w.2) (h.shape hshape) h.held hq hout
      rw [hqs] at hone
      exact (ih (h.webWrite hshape w.1 w.2)
        fun w' hw' => hws w' (List.mem_cons_of_mem _ hw')).trans hone

/-- Two further passes bring a whole star to its source's value. -/
theorem read_after_two (h : SameStars m₀ m)
    (hshape : StarShaped m₀ m₀.mappings) {r : MappingRule}
    (hr : r ∈ m₀.mappings) :
    m.syncMappings.syncMappings.readValue r.src = m.readValue r.src ∧
      m.syncMappings.syncMappings.readValue r.dst = m.readValue r.src := by
  obtain ⟨q, hq, hqs, hqd⟩ := h.rule hr
  have htwo := (h.shape hshape).read_after_two hq
  rwa [((h.shape hshape).read_after h.held hq).1, hqs, hqd] at htwo

end SameStars

/-- The star of `r₀` holds what the write `(ref, v)` put into its cell, after
that write, those around it, and two further passes. -/
def LastWriterWins (m : PlcMemory) (before : List (MemoryRef × UInt16))
    (ref : MemoryRef) (v : UInt16) (after : List (MemoryRef × UInt16))
    (r₀ : MappingRule) : Prop :=
  StarHolds m
    (m.webWrites (before ++ (ref, v) :: after)).syncMappings.syncMappings r₀
    ((m.writeValue ref v).readValue ref)

/-- The last write to a star wins exactly if it was fresh. The rules are
star-shaped and in sync; `(ref, v)` is the last of the writes that reaches the
star of `r₀`. The state in which the write must be fresh is the one just before
it. -/
theorem last_writer_wins_iff {m : PlcMemory} (h : StarShaped m m.mappings)
    (hsync : ∀ r ∈ m.mappings, r.InSync m)
    (before after : List (MemoryRef × UInt16)) (ref : MemoryRef) (v : UInt16)
    {r₀ : MappingRule} (hr₀ : r₀ ∈ m.mappings)
    (hin : InStar m r₀ (m.cell ref))
    (hlast : ∀ w ∈ after, ¬ InStar m r₀ (m.cell w.1)) :
    LastWriterWins m before ref v after r₀ ↔
      Fresh (m.webWrites before) ref v := by
  have hstart : SameStars m m := ⟨fun _ => rfl, rfl, allHeld_of_inSync hsync⟩
  have hs₁ := hstart.webWrites h before
  have hseq : m.webWrites (before ++ (ref, v) :: after) =
      ((m.webWrites before).webWrite ref v).webWrites after := by
    unfold PlcMemory.webWrites
    rw [List.foldl_append, List.foldl_cons]
  unfold LastWriterWins
  rw [hseq, readValue_writeValue_self]
  -- `m₁` meets the write, `m₂` has it behind it.
  generalize m.webWrites before = m₁ at hs₁ ⊢
  have hs₂ : SameStars m (m₁.webWrite ref v) := hs₁.webWrite h ref v
  have hs₃ := hs₂.webWrites h after
  have hsrc := hs₂.source_webWrites h hr₀ hlast
  generalize hm₂ : m₁.webWrite ref v = m₂ at hs₂ hs₃ hsrc
  have hread : StarHolds m (m₂.webWrites after).syncMappings.syncMappings r₀
      (m₂.readValue r₀.src) := by
    intro r hr hrs
    have htwo := hs₃.read_after_two h hr
    have hval : (m₂.webWrites after).readValue r.src = m₂.readValue r₀.src := by
      rw [← hsrc, PlcMemory.readValue_view, PlcMemory.readValue_view, hs₃.cell,
        hs₃.cell, hrs]
    rwa [hval] at htwo
  -- The write itself is decided in `m₁`.
  obtain ⟨q, hq, hqs, hqd⟩ := hs₁.rule hr₀
  have hinq : InStar m₁ q (m₁.cell ref) := by
    have hstar : InStar m₁ q = InStar m₁ r₀ := by unfold InStar; rw [hqs]
    rw [hstar, hs₁.cell, hs₁.inStar]
    exact hin
  have hdecided := source_after_webWrite (v := v) (hs₁.shape h) hs₁.held hq hinq
  rw [hm₂, hqs, hs₁.cell] at hdecided
  rw [← hdecided]
  constructor
  · intro hall
    exact (hread r₀ hr₀ rfl).1.symm.trans (hall r₀ hr₀ rfl).1
  · intro heq r hr hrs
    obtain ⟨hs, hd⟩ := hread r hr hrs
    exact ⟨hs.trans heq, hd.trans heq⟩

/-! ## On the fan-out -/

theorem inStar_fanOut_db1 :
    InStar fanOut fanOutRule (fanOut.cell db1Ref) :=
  Or.inr ⟨fanOutRule, fanOutRule_mem, rfl, rfl⟩

set_option maxRecDepth 8192 in
/-- Two clients write the fan-out's destinations, the rule listed second first:
the later write is thrown away. -/
theorem last_writer_loses_fanOut :
    ¬ ∀ (m : PlcMemory), StarShaped m m.mappings →
      (∀ r ∈ m.mappings, r.InSync m) →
      ∀ (before after : List (MemoryRef × UInt16)) (ref : MemoryRef)
        (v : UInt16), ∀ r₀ ∈ m.mappings, InStar m r₀ (m.cell ref) →
        (∀ w ∈ after, ¬ InStar m r₀ (m.cell w.1)) →
        LastWriterWins m before ref v after r₀ := by
  intro h
  have hwins := h fanOut fanOut_starShaped fanOut_inSync [(d0Ref, 1)] [] db1Ref 2
    _ fanOutRule_mem inStar_fanOut_db1 (by simp) _
    fanOutRule_mem rfl
  have hread : (fanOut.webWrites [(d0Ref, 1), (db1Ref, 2)]).syncMappings.syncMappings.readValue
      hr0Ref = 1 := rfl
  have hwant : (fanOut.writeValue db1Ref 2).readValue db1Ref = 2 := rfl
  exact absurd (hread.symm.trans (hwins.1.trans hwant)) (by decide)

theorem fresh_of_inSync {m : PlcMemory} (hsync : ∀ r ∈ m.mappings, r.InSync m)
    (ref : MemoryRef) (v : UInt16) : Fresh m ref v :=
  fun r hr _ => Or.inl (hsync r hr).2.1

/-- One client alone is heard from any destination. -/
theorem last_writer_wins_fanOut :
    LastWriterWins fanOut [] db1Ref 2 [] fanOutRule :=
  (last_writer_wins_iff fanOut_starShaped fanOut_inSync [] [] db1Ref 2
    fanOutRule_mem inStar_fanOut_db1 (by simp)).mpr
    (fresh_of_inSync fanOut_inSync db1Ref 2)

end VPlc
