import Mathlib.Data.List.Nodup
import VPlc.Mirror.Basic

/-!
# Stars

A list of links is a `Star` when no cell is the destination of two of them and
no destination is a source. Sources may be shared, so a list falls apart into
one star per source, its links interleaved with those of the others in any
order.

One pass does not make a star agree, because a destination that pushes its
value back leaves the links listed before it behind. It does make every link
`Held` (`Star.pass_held`), from any state at all, and a second pass carries
each source to its destinations (`Star.pass_of_held`), whatever has happened to
the sources in between. That pair is the normal form of everything said about
stars here.

What a source holds after the first pass is the other question. `arbitrate`
answers it for a star whose links all recorded one value, and
`Star.pass_write_dst` for a held star with a single destination overwritten;
the second has the case the first cannot see, a link that had fallen behind.
-/

namespace Mirror

variable {κ α : Type*}

/-- No destination is shared and none is a source. -/
structure Star (ls : List (Link κ α)) : Prop where
  once : (ls.map Link.dst).Nodup
  leaf : ∀ l ∈ ls, ∀ l' ∈ ls, l.dst ≠ l'.src

namespace Star

theorem of_cons {l : Link κ α} {ls : List (Link κ α)} (h : Star (l :: ls)) :
    Star ls :=
  ⟨(List.nodup_cons.mp h.once).2, fun a ha b hb =>
    h.leaf a (List.mem_cons_of_mem _ ha) b (List.mem_cons_of_mem _ hb)⟩

theorem head_ne {l : Link κ α} {ls : List (Link κ α)} (h : Star (l :: ls)) :
    l.src ≠ l.dst :=
  (h.leaf l List.mem_cons_self l List.mem_cons_self).symm

theorem head_avoids {l : Link κ α} {ls : List (Link κ α)}
    (h : Star (l :: ls)) : ∀ l' ∈ ls, l'.Avoids l.dst := by
  intro l' hl'
  constructor
  · exact (h.leaf l List.mem_cons_self l' (List.mem_cons_of_mem _ hl')).symm
  · intro heq
    exact (List.nodup_cons.mp h.once).1
      (List.mem_map.mpr ⟨l', hl', heq⟩)

theorem iff_ends {ls : List (Link κ α)} :
    Star ls ↔ ((ls.map Link.ends).map Prod.snd).Nodup ∧
      ∀ e ∈ ls.map Link.ends, ∀ e' ∈ ls.map Link.ends, e.2 ≠ e'.1 := by
  have hdst : (ls.map Link.ends).map Prod.snd = ls.map Link.dst := by
    rw [List.map_map]
    rfl
  rw [hdst]
  constructor
  · intro h
    refine ⟨h.once, ?_⟩
    intro e he e' he'
    obtain ⟨l, hl, rfl⟩ := List.mem_map.mp he
    obtain ⟨l', hl', rfl⟩ := List.mem_map.mp he'
    exact h.leaf l hl l' hl'
  · rintro ⟨honce, hleaf⟩
    refine ⟨honce, fun l hl l' hl' => ?_⟩
    exact hleaf l.ends (List.mem_map_of_mem hl) l'.ends (List.mem_map_of_mem hl')

theorem of_ends {ls ms : List (Link κ α)}
    (h : ls.map Link.ends = ms.map Link.ends) (hs : Star ls) : Star ms := by
  rw [iff_ends] at hs ⊢
  rwa [h] at hs

/-- A star around one of its links: the rest is a star, and stays away from
that link's destination. -/
theorem split {l : Link κ α} {as bs : List (Link κ α)}
    (h : Star (as ++ l :: bs)) :
    Star as ∧ Star bs ∧ ∀ l' ∈ as ++ bs, l'.Avoids l.dst := by
  have hperm : Star (l :: (as ++ bs)) := by
    refine ⟨?_, fun a ha b hb => h.leaf a ?_ b ?_⟩
    · exact (List.perm_middle.map Link.dst).nodup_iff.mp h.once
    · exact List.perm_middle.mem_iff.mpr ha
    · exact List.perm_middle.mem_iff.mpr hb
  have hrest := hperm.of_cons
  have honce := hrest.once
  rw [List.map_append, List.nodup_append] at honce
  refine ⟨⟨honce.1, fun a ha b hb => ?_⟩, ⟨honce.2.1, fun a ha b hb => ?_⟩,
    hperm.head_avoids⟩
  · exact hrest.leaf a (List.mem_append_left _ ha) b (List.mem_append_left _ hb)
  · exact hrest.leaf a (List.mem_append_right _ ha) b (List.mem_append_right _ hb)

variable [DecidableEq κ] [DecidableEq α] {s : κ → α} {ls : List (Link κ α)}

/-- After a pass every destination is as its link left it. -/
theorem pass_held (h : Star ls) :
    ∀ l ∈ (pass asIs s ls).2, l.Held (pass asIs s ls).1 := by
  induction ls generalizing s with
  | nil => simp
  | cons l ls ih =>
      intro l' hl'
      rw [pass_cons] at hl' ⊢
      rcases List.mem_cons.mp hl' with rfl | hmem
      · have hset := Link.step_settled (s := s) h.head_ne
        refine hset.held.of_eq ?_
        rw [Link.step_dst]
        exact pass_frame asIs _ h.head_avoids
      · exact ih h.of_cons l' hmem

/-- Where every link follows its source, each source is carried to its
destinations, nothing else moves, and every link records what it carried. -/
theorem pass_of_follows (h : Star ls) (hfollows : ∀ l ∈ ls, l.Follows s) :
    (∀ l ∈ ls, (pass asIs s ls).1 l.dst = s l.src) ∧
      (∀ k, (∀ l ∈ ls, l.dst ≠ k) → (pass asIs s ls).1 k = s k) ∧
      (pass asIs s ls).2 = ls.map fun l => l.mark (s l.src) := by
  induction ls generalizing s with
  | nil => simp
  | cons l ls ih =>
      rw [pass_cons, Link.step_of_follows (hfollows l List.mem_cons_self)]
      have havoid := h.head_avoids
      have hsrc : ∀ l' ∈ ls,
          Function.update s l.dst (s l.src) l'.src = s l'.src :=
        fun l' hl' => Function.update_of_ne (havoid l' hl').1 _ _
      have hfollows' : ∀ l' ∈ ls, l'.Follows (Function.update s l.dst (s l.src)) :=
        fun l' hl' => (hfollows l' (List.mem_cons_of_mem _ hl')).of_eq
          (Function.update_of_ne (havoid l' hl').2 _ _)
      obtain ⟨hdst, hframe, hlinks⟩ := ih h.of_cons hfollows'
      refine ⟨?_, ?_, ?_⟩
      · intro l' hl'
        rcases List.mem_cons.mp hl' with rfl | hmem
        · rw [hframe _ fun l'' hl'' => (havoid l'' hl'').2]
          exact Function.update_self _ _ _
        · rw [hdst l' hmem, hsrc l' hmem]
      · intro k hk
        rw [hframe k fun l' hl' => hk l' (List.mem_cons_of_mem _ hl')]
        exact Function.update_of_ne (hk l List.mem_cons_self).symm _ _
      · rw [hlinks]
        refine congrArg (l.mark (s l.src) :: ·) ?_
        exact List.map_congr_left fun l' hl' => by rw [hsrc l' hl']

theorem pass_of_held (h : Star ls) (hheld : ∀ l ∈ ls, l.Held s) :
    (∀ l ∈ ls, (pass asIs s ls).1 l.dst = s l.src) ∧
      (∀ k, (∀ l ∈ ls, l.dst ≠ k) → (pass asIs s ls).1 k = s k) ∧
      (pass asIs s ls).2 = ls.map fun l => l.mark (s l.src) :=
  h.pass_of_follows fun l hl => Or.inr (hheld l hl)

/-- So the star is settled by one pass. -/
theorem settled_of_follows (h : Star ls) (hfollows : ∀ l ∈ ls, l.Follows s) :
    ∀ l ∈ (pass asIs s ls).2, l.Settled (pass asIs s ls).1 := by
  obtain ⟨hdst, hframe, hlinks⟩ := h.pass_of_follows hfollows
  rw [hlinks]
  intro l' hl'
  obtain ⟨l, hl, rfl⟩ := List.mem_map.mp hl'
  have hsrc : (pass asIs s ls).1 l.src = s l.src :=
    hframe l.src fun l'' hl'' => h.leaf l'' hl'' l hl
  have hd := hdst l hl
  exact ⟨rfl, hsrc.symm, hd.symm, hsrc.trans hd.symm⟩

theorem follow (h : Star ls) (hfollows : ∀ l ∈ ls, l.Follows s) {l : Link κ α}
    (hl : l ∈ ls) :
    (pass asIs s ls).1 l.src = s l.src ∧ (pass asIs s ls).1 l.dst = s l.src := by
  obtain ⟨hdst, hframe, -⟩ := h.pass_of_follows hfollows
  exact ⟨hframe l.src fun l' hl' => h.leaf l' hl' l hl, hdst l hl⟩

/-- A source keeps its value as long as its own links are held, whatever the
other stars are doing. -/
theorem pass_source {c : κ} (h : Star ls) (hc : ∀ l ∈ ls, l.dst ≠ c)
    (hheld : ∀ l ∈ ls, l.src = c → l.Held s) : (pass asIs s ls).1 c = s c := by
  induction ls generalizing s with
  | nil => rfl
  | cons l ls ih =>
      have hcl := hc l List.mem_cons_self
      have hstep : (l.step asIs s).1 c = s c := by
        by_cases hsrc : l.src = c
        · rw [Link.step_of_held (hheld l List.mem_cons_self hsrc)]
          exact Function.update_of_ne hcl.symm _ _
        · exact Link.step_frame asIs s ⟨hsrc, hcl⟩
      rw [pass_cons]
      rw [ih h.of_cons fun l' hl' => hc l' (List.mem_cons_of_mem _ hl'), hstep]
      intro l' hl' hsrc
      refine (hheld l' (List.mem_cons_of_mem _ hl') hsrc).of_eq ?_
      refine Link.step_frame asIs s ⟨?_, (h.head_avoids l' hl').2.symm⟩
      exact (h.leaf l' (List.mem_cons_of_mem _ hl') l List.mem_cons_self).symm

/-! ## Which value a source ends up with -/

/-- The first destination of `c` in list order that no longer holds `v`. -/
def firstChanged (s : κ → α) (v : α) (c : κ) (ls : List (Link κ α)) :
    Option α :=
  ((ls.filter fun l => l.src = c).map fun l => s l.dst).find? fun w => w ≠ v

/-- A changed source, else the first changed destination, else nothing new. -/
def arbitrate (s : κ → α) (v : α) (c : κ) (ls : List (Link κ α)) : α :=
  if s c ≠ v then s c else (firstChanged s v c ls).getD v

theorem firstChanged_congr {s t : κ → α} (v : α) (c : κ)
    (h : ∀ l ∈ ls, t l.dst = s l.dst) :
    firstChanged t v c ls = firstChanged s v c ls := by
  unfold firstChanged
  rw [List.map_congr_left fun l hl => h l (List.mem_of_mem_filter hl)]

theorem firstChanged_cons_of_ne {l : Link κ α} {v : α} {c : κ}
    (h : l.src ≠ c) : firstChanged s v c (l :: ls) = firstChanged s v c ls := by
  unfold firstChanged
  rw [List.filter_cons_of_neg (by simpa using h)]

theorem firstChanged_cons_of_eq {l : Link κ α} {v : α} {c : κ}
    (h : l.src = c) :
    firstChanged s v c (l :: ls) =
      if s l.dst ≠ v then some (s l.dst) else firstChanged s v c ls := by
  unfold firstChanged
  rw [List.filter_cons_of_pos (by simpa using h), List.map_cons,
    List.find?_cons]
  by_cases hv : s l.dst = v <;> simp [hv]

/-- In a star whose links all recorded `v`, one pass decides the source as
`arbitrate` says. -/
theorem pass_arbitrate {v : α} {c : κ} (h : Star ls)
    (hc : ∀ l ∈ ls, l.dst ≠ c)
    (hv : ∀ l ∈ ls, l.src = c →
      l.live = true ∧ l.lastSrc = v ∧ l.lastDst = v) :
    (pass asIs s ls).1 c = arbitrate s v c ls := by
  induction ls generalizing s with
  | nil =>
      show s c = arbitrate s v c []
      by_cases hsc : s c = v <;> simp [arbitrate, firstChanged, hsc]
  | cons l ls ih =>
      have hcl := hc l List.mem_cons_self
      have hdst : ∀ l' ∈ ls, (l.step asIs s).1 l'.dst = s l'.dst := by
        intro l' hl'
        refine Link.step_frame asIs s ⟨?_, ?_⟩
        · exact (h.leaf l' (List.mem_cons_of_mem _ hl') l List.mem_cons_self).symm
        · exact (h.head_avoids l' hl').2.symm
      rw [pass_cons]
      rw [ih h.of_cons (fun l' hl' => hc l' (List.mem_cons_of_mem _ hl'))
        fun l' hl' => hv l' (List.mem_cons_of_mem _ hl')]
      unfold arbitrate
      rw [firstChanged_congr v c hdst]
      by_cases hsrc : l.src = c
      · obtain ⟨hlive, hls, hld⟩ := hv l List.mem_cons_self hsrc
        have hne : l.src ≠ l.dst := fun he => hcl (he.symm.trans hsrc)
        have hstep := Link.step_src_of_mark (s := s) hlive (hls.trans hld.symm) hne
        rw [hsrc, hls] at hstep
        rw [firstChanged_cons_of_eq hsrc, hstep]
        by_cases hsc : s c = v
        · -- The first changed destination, if this is one, is copied back.
          by_cases hd : s l.dst = v <;> simp [hsc, hd]
        · -- The source changed, so this link copies forward.
          simp [hsc]
      · rw [firstChanged_cons_of_ne hsrc,
          Link.step_frame asIs s ⟨hsrc, hcl⟩]

/-- Overwrite one destination of a held star. Its source takes the value over
if the link had seen the source's latest value, and keeps its own otherwise. -/
theorem pass_write_dst {l : Link κ α} {w : α} (h : Star ls)
    (hheld : ∀ l ∈ ls, l.Held s) (hl : l ∈ ls) :
    (pass asIs (Function.update s l.dst w) ls).1 l.src =
      if s l.src = l.lastSrc then w else s l.src := by
  obtain ⟨as, bs, rfl⟩ := List.append_of_mem hl
  obtain ⟨hsa, hsb, havoid⟩ := h.split
  have hne : l.src ≠ l.dst := (h.leaf l hl l hl).symm
  generalize hs' : Function.update s l.dst w = s'
  have hsrc' : s' l.src = s l.src := by
    rw [← hs']; exact Function.update_of_ne hne _ _
  have hdst' : s' l.dst = w := by rw [← hs']; exact Function.update_self _ _ _
  have hrest : ∀ l' ∈ as ++ bs, l'.Held s' := by
    intro l' hl'
    refine (hheld l' ?_).of_eq ?_
    · exact List.perm_middle.mem_iff.mpr (List.mem_cons_of_mem _ hl')
    · rw [← hs']; exact Function.update_of_ne (havoid l' hl').2 _ _
  have hleaf : ∀ l' ∈ as ++ l :: bs, l'.dst ≠ l.src :=
    fun l' hl' => h.leaf l' hl' l hl
  -- The links before `l` follow their sources and leave both ends of `l` alone.
  obtain ⟨-, hframe, -⟩ := hsa.pass_of_held
    fun l' hl' => hrest l' (List.mem_append_left _ hl')
  generalize hs₁ : (pass asIs s' as).1 = s₁ at hframe
  have hsrc₁ : s₁ l.src = s l.src := by
    rw [hframe l.src fun l' hl' => hleaf l' (List.mem_append_left _ hl'), hsrc']
  have hdst₁ : s₁ l.dst = w := by
    rw [hframe l.dst fun l' hl' => (havoid l' (List.mem_append_left _ hl')).2,
      hdst']
  -- What `l` does is the whole question.
  have hstep : (l.step asIs s₁).1 l.src =
      if s l.src = l.lastSrc then w else s l.src := by
    obtain ⟨hlive, hlast, -⟩ := hheld l hl
    rw [Link.step_src_of_mark hlive hlast hne, hsrc₁, hdst₁]
  -- The links after `l` follow as well.
  have hbs : ∀ l' ∈ bs, l'.Held (l.step asIs s₁).1 := by
    intro l' hl'
    have hmem : l' ∈ as ++ l :: bs := by simp [hl']
    refine (hrest l' (List.mem_append_right _ hl')).of_eq ?_
    rw [Link.step_frame asIs s₁
      ⟨(hleaf l' hmem).symm, (havoid l' (List.mem_append_right _ hl')).2.symm⟩]
    refine hframe l'.dst fun l'' hl'' => ?_
    have honce := h.once
    rw [List.map_append, List.map_cons, List.nodup_append] at honce
    exact honce.2.2 l''.dst (List.mem_map_of_mem hl'') l'.dst
      (List.mem_cons_of_mem _ (List.mem_map_of_mem hl'))
  obtain ⟨-, hframe₂, -⟩ := hsb.pass_of_held hbs
  rw [pass_append, pass_cons, hs₁]
  show (pass asIs (l.step asIs s₁).1 bs).1 l.src = _
  rw [hframe₂ l.src fun l' hl' => hleaf l' (by simp [hl']), hstep]

end Star

end Mirror
