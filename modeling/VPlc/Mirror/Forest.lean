import Mathlib.Combinatorics.SimpleGraph.Acyclic
import Mathlib.Data.List.Nodup
import VPlc.Mirror.Star

/-!
# Forests settle

Read a list of links as an undirected graph, cells for vertices and links for
edges. If it is a forest, the links stop moving after two passes per link, from
any store and any record (`Forest.settles`). The order of the list does not
matter, nor which end of a link is called its source.

The induction takes a leaf off. A link that ends in a leaf is the only one that
ever writes there, so after one pass it knows what the leaf holds, and from
then on it can only be moved by its other end (`Trails`). It copies towards the
leaf and never away from it, which is to say that the rest of the forest runs
as if the link were not there (`Trails.pass`). The rest settles by induction,
and one pass more brings the leaf along: two passes for each link removed.
-/

namespace Mirror

/-! ## A leaf -/

/-- A finite acyclic graph with an edge has a vertex with one neighbour: the
end of a longest path. -/
theorem exists_one_neighbour {V : Type*} {G : SimpleGraph V}
    [Finite G.edgeSet] (hG : G.IsAcyclic) {a b : V} (hab : G.Adj a b) :
    ∃ x y, G.Adj x y ∧ ∀ z, G.Adj x z → z = y := by
  have : Nonempty V := ⟨a⟩
  obtain ⟨u, v, p, hp, hmax⟩ :=
    SimpleGraph.Walk.exists_isPath_forall_isPath_length_le_length G
  have hlen : 1 ≤ p.length := by
    have h := hmax a b hab.toWalk (SimpleGraph.Path.singleton hab).2
    simpa using h
  have hnil : ¬ p.Nil := by
    intro h
    have h₀ := SimpleGraph.Walk.length_eq_zero_iff.mpr h
    omega
  refine ⟨v, p.penultimate, (p.adj_penultimate hnil).symm, ?_⟩
  intro z hz
  refine hG.eq_penultimate_of_adj_end hp hz ?_
  by_contra hout
  -- Otherwise the path could be prolonged to `z`.
  have h := hmax u z (p.concat hz) (hp.concat hout hz)
  rw [SimpleGraph.Walk.length_concat] at h
  omega

variable {κ α : Type*}

/-- A link as an edge. -/
def Link.edge (l : Link κ α) : Sym2 κ := s(l.src, l.dst)

def graph (ls : List (Link κ α)) : SimpleGraph κ :=
  SimpleGraph.fromEdgeSet {e | e ∈ ls.map Link.edge}

/-- No link joins a cell to itself, no two join the same cells, and there is
no cycle. -/
structure Forest (ls : List (Link κ α)) : Prop where
  noLoop : ∀ l ∈ ls, l.src ≠ l.dst
  noParallel : (ls.map Link.edge).Nodup
  acyclic : (graph ls).IsAcyclic

instance (ls : List (Link κ α)) : Finite (graph ls).edgeSet := by
  rw [graph, SimpleGraph.edgeSet_fromEdgeSet]
  exact (List.finite_toSet (ls.map Link.edge)).sdiff

namespace Forest

theorem of_ends {ls ms : List (Link κ α)}
    (h : ls.map Link.ends = ms.map Link.ends) (hf : Forest ls) : Forest ms := by
  have hedge : ∀ xs : List (Link κ α),
      xs.map Link.edge = (xs.map Link.ends).map fun e => s(e.1, e.2) := by
    intro xs
    rw [List.map_map]
    rfl
  have heq : ls.map Link.edge = ms.map Link.edge := by
    rw [hedge, hedge, h]
  refine ⟨fun m hm => ?_, ?_, ?_⟩
  · have hmem : m.ends ∈ ls.map Link.ends := by
      rw [h]; exact List.mem_map_of_mem hm
    obtain ⟨l, hl, he⟩ := List.mem_map.mp hmem
    have hne := hf.noLoop l hl
    rw [show l.src = m.src from congrArg Prod.fst he,
      show l.dst = m.dst from congrArg Prod.snd he] at hne
    exact hne
  · rw [← heq]; exact hf.noParallel
  · have hg : graph ms = graph ls := by rw [graph, graph, heq]
    rw [hg]
    exact hf.acyclic

theorem erase {r : Link κ α} {as bs : List (Link κ α)}
    (h : Forest (as ++ r :: bs)) : Forest (as ++ bs) := by
  have hsub : (as ++ bs).Sublist (as ++ r :: bs) :=
    (List.sublist_cons_self r bs).append_left as
  refine ⟨fun l hl => h.noLoop l (hsub.subset hl),
    h.noParallel.sublist (hsub.map _), ?_⟩
  refine h.acyclic.anti ?_
  refine SimpleGraph.fromEdgeSet_mono fun e he => ?_
  exact (hsub.map _).subset he

theorem cons {r : Link κ α} {ls : List (Link κ α)} (h : Forest ls)
    (hne : r.src ≠ r.dst) (havoid : ∀ l ∈ ls, l.Avoids r.dst) :
    Forest (r :: ls) := by
  have hfree : ∀ e ∈ ls.map Link.edge, r.dst ∉ e := by
    intro e he hmem
    obtain ⟨l, hl, rfl⟩ := List.mem_map.mp he
    rcases Sym2.mem_iff.mp hmem with hd | hd
    · exact (havoid l hl).1 hd.symm
    · exact (havoid l hl).2 hd.symm
  have hnot : ¬ (graph ls).Reachable r.src r.dst := by
    refine SimpleGraph.not_reachable_of_neighborSet_right_eq_empty hne ?_
    refine Set.eq_empty_of_forall_notMem fun k hadj => ?_
    rw [SimpleGraph.mem_neighborSet, graph, SimpleGraph.fromEdgeSet_adj] at hadj
    exact hfree _ hadj.1 (Sym2.mem_mk_left _ _)
  have hgraph : graph (r :: ls) =
      graph ls ⊔ SimpleGraph.edge r.src r.dst := by
    rw [graph, graph, SimpleGraph.edge, ← SimpleGraph.fromEdgeSet_union]
    refine congrArg SimpleGraph.fromEdgeSet (Set.ext fun e => ?_)
    simp [Link.edge]
  refine ⟨?_, ?_, ?_⟩
  · exact List.forall_mem_cons.mpr ⟨hne, h.noLoop⟩
  · rw [List.map_cons, List.nodup_cons]
    exact ⟨fun he => hfree _ he (Sym2.mem_mk_right _ _), h.noParallel⟩
  · rw [hgraph]
    exact h.acyclic.sup_edge_of_not_reachable hnot

/-- Some link of a forest ends in a cell no other link touches. -/
theorem exists_leaf {ls : List (Link κ α)} (h : Forest ls) (hne : ls ≠ []) :
    ∃ as r bs x, ls = as ++ r :: bs ∧ (r.src = x ∨ r.dst = x) ∧
      ∀ l ∈ as ++ bs, l.Avoids x := by
  have hadj : ∀ {l : Link κ α}, l ∈ ls → (graph ls).Adj l.src l.dst := by
    intro l hl
    rw [graph, SimpleGraph.fromEdgeSet_adj]
    exact ⟨List.mem_map_of_mem (f := Link.edge) hl, h.noLoop l hl⟩
  obtain ⟨l₀, hl₀⟩ := List.exists_mem_of_ne_nil ls hne
  obtain ⟨x, y, hxy, huniq⟩ := exists_one_neighbour h.acyclic (hadj hl₀)
  rw [graph, SimpleGraph.fromEdgeSet_adj] at hxy
  obtain ⟨r, hr, hedge⟩ := List.mem_map.mp hxy.1
  obtain ⟨as, bs, rfl⟩ := List.append_of_mem hr
  have hnodup : ((r :: (as ++ bs)).map Link.edge).Nodup :=
    (List.perm_middle.map Link.edge).nodup_iff.mp h.noParallel
  rw [List.map_cons, List.nodup_cons] at hnodup
  refine ⟨as, r, bs, x, rfl, ?_, ?_⟩
  · rw [Link.edge, Sym2.eq_iff] at hedge
    rcases hedge with ⟨hx, -⟩ | ⟨-, hx⟩
    · exact Or.inl hx
    · exact Or.inr hx
  · intro l hl
    have hmem : l ∈ as ++ r :: bs :=
      List.perm_middle.mem_iff.mpr (List.mem_cons_of_mem _ hl)
    -- A link at `x` would lead to `y`, and so be the one already taken.
    have hother : l.edge ≠ s(x, y) := by
      intro heq
      exact hnodup.1 (List.mem_map.mpr ⟨l, hl, heq.trans hedge.symm⟩)
    constructor
    · intro hx
      have hy := huniq l.dst (hx ▸ hadj hmem)
      exact hother (by rw [Link.edge, hx, hy])
    · intro hx
      have hy := huniq l.src (hx ▸ (hadj hmem).symm)
      exact hother (by rw [Link.edge, hx, hy, Sym2.eq_swap])

end Forest

/-- A star is a forest: each of its links ends in a leaf. -/
theorem Star.forest {ls : List (Link κ α)} (h : Star ls) : Forest ls := by
  induction ls with
  | nil =>
      refine ⟨by simp, by simp, ?_⟩
      have hbot : graph ([] : List (Link κ α)) = ⊥ := by simp [graph]
      rw [hbot]
      exact SimpleGraph.isAcyclic_bot
  | cons l ls ih => exact ih h.of_cons |>.cons h.head_ne h.head_avoids

/-! ## A link that trails its leaf -/

/-- `r` ends in `x` and has recorded what `x` holds. -/
structure Link.Trails (s : κ → α) (x : κ) (r : Link κ α) : Prop where
  atEnd : r.src = x ∨ r.dst = x
  noLoop : r.src ≠ r.dst
  live : r.live = true
  lastSrc : r.lastSrc = s x
  lastDst : r.lastDst = s x

namespace Link.Trails

variable {s : κ → α} {x : κ} {r : Link κ α}

theorem of_eq {t : κ → α} (h : r.Trails s x) (ht : t x = s x) :
    r.Trails t x :=
  ⟨h.atEnd, h.noLoop, h.live, h.lastSrc.trans ht.symm, h.lastDst.trans ht.symm⟩

variable [DecidableEq κ] [DecidableEq α]

/-- After any step a link trails whichever of its ends one likes. -/
theorem of_step (hne : r.src ≠ r.dst) (hx : r.src = x ∨ r.dst = x) :
    (r.step asIs s).2.Trails (r.step asIs s).1 x := by
  have hset := Link.step_settled (s := s) hne
  have hsx : (r.step asIs s).1 r.src = (r.step asIs s).1 x := by
    rcases hx with rfl | rfl
    · rfl
    · have h := hset.2.2.2
      rwa [Link.step_src, Link.step_dst] at h
  refine ⟨by simpa using hx, by simpa using hne, hset.1, ?_, ?_⟩
  · rw [hset.2.1, Link.step_src, hsx]
  · rw [hset.2.2.1, ← hset.2.2.2, Link.step_src, hsx]

/-- A trailing link writes at its leaf and nowhere else. -/
theorem step_frame (h : r.Trails s x) {k : κ} (hk : k ≠ x) :
    (r.step asIs s).1 k = s k := by
  rcases h.atEnd with hx | hx
  · by_cases hd : s r.dst = r.lastDst
    · -- Neither end has moved.
      have hset : r.Settled s := by
        refine ⟨h.live, by rw [hx, h.lastSrc], hd.symm, ?_⟩
        rw [hx, hd, h.lastDst]
      rw [Link.step_of_settled hset]
    · have hback : r.move s = .back :=
        Link.move_back.mpr ⟨h.live, by rw [hx, h.lastSrc], hd⟩
      rw [Link.step_back hback]
      exact Function.update_of_ne (by rw [hx]; exact hk) _ _
  · have hheld : r.Held s :=
      ⟨h.live, h.lastSrc.trans h.lastDst.symm, by rw [hx, h.lastDst]⟩
    rw [Link.step_of_held hheld]
    exact Function.update_of_ne (by rw [hx]; exact hk) _ _

/-- Once its other end stops changing, a trailing link is settled by a step. -/
theorem step_trails (h : r.Trails s x) :
    (r.step asIs s).2.Trails (r.step asIs s).1 x :=
  of_step h.noLoop h.atEnd

end Link.Trails

theorem avoids_of_ends {ls ms : List (Link κ α)} {x : κ}
    (h : ms.map Link.ends = ls.map Link.ends) (hls : ∀ l ∈ ls, l.Avoids x) :
    ∀ m ∈ ms, m.Avoids x := by
  intro m hm
  have hmem : m.ends ∈ ls.map Link.ends := by
    rw [← h]; exact List.mem_map_of_mem hm
  obtain ⟨l, hl, he⟩ := List.mem_map.mp hmem
  have h := hls l hl
  rw [Link.Avoids, show l.src = m.src from congrArg Prod.fst he,
    show l.dst = m.dst from congrArg Prod.snd he] at h
  exact h

/-- Two stores that agree on every cell but one. -/
def AgreeOff (x : κ) (s t : κ → α) : Prop := ∀ k, k ≠ x → s k = t k

variable [DecidableEq κ] [DecidableEq α]

theorem AgreeOff.step {x : κ} {s t : κ → α} {l : Link κ α}
    (h : AgreeOff x s t) (hl : l.Avoids x) :
    (l.step asIs s).2 = (l.step asIs t).2 ∧
      AgreeOff x (l.step asIs s).1 (l.step asIs t).1 := by
  obtain ⟨hlink, hstore⟩ := Link.step_congr asIs (h l.src hl.1) (h l.dst hl.2)
  exact ⟨hlink, fun k hk => hstore k (h k hk)⟩

theorem AgreeOff.pass {x : κ} {s t : κ → α} {ls : List (Link κ α)}
    (h : AgreeOff x s t) (hls : ∀ l ∈ ls, l.Avoids x) :
    (pass asIs s ls).2 = (pass asIs t ls).2 ∧
      AgreeOff x (pass asIs s ls).1 (pass asIs t ls).1 := by
  induction ls generalizing s t with
  | nil => exact ⟨rfl, h⟩
  | cons l ls ih =>
      obtain ⟨hlink, hstore⟩ := h.step (hls l List.mem_cons_self)
      obtain ⟨hlinks, hstore'⟩ :=
        ih hstore fun l' hl' => hls l' (List.mem_cons_of_mem _ hl')
      rw [pass_cons, pass_cons, hlink, hlinks]
      exact ⟨rfl, hstore'⟩

/-- A net with a trailing link in it, and the same net without: the links but
one are the same, and so is every cell but the leaf. -/
structure WithLeaf (x : κ) (p q : (κ → α) × List (Link κ α)) : Prop where
  links : ∃ as r bs, p.2 = as ++ r :: bs ∧ q.2 = as ++ bs ∧ r.Trails p.1 x ∧
    ∀ l ∈ as ++ bs, l.Avoids x
  store : AgreeOff x p.1 q.1

/-- The net without the leaf does not notice the link that is missing. -/
theorem WithLeaf.pass {x : κ} {p q : (κ → α) × List (Link κ α)}
    (h : WithLeaf x p q) :
    WithLeaf x (pass asIs p.1 p.2) (pass asIs q.1 q.2) := by
  obtain ⟨s, ls⟩ := p
  obtain ⟨t, ms⟩ := q
  obtain ⟨⟨as, r, bs, hls, hms, htrail, havoid⟩, hagree⟩ := h
  simp only at hls hms htrail hagree
  subst hls hms
  have has : ∀ l ∈ as, l.Avoids x :=
    fun l hl => havoid l (List.mem_append_left _ hl)
  have hbs : ∀ l ∈ bs, l.Avoids x :=
    fun l hl => havoid l (List.mem_append_right _ hl)
  obtain ⟨hlinks₁, hagree₁⟩ := hagree.pass has
  -- The links before `r` leave the leaf alone, so `r` still trails.
  have htrail₁ : r.Trails (Mirror.pass asIs s as).1 x :=
    htrail.of_eq (pass_frame asIs s has)
  have hagree₂ : AgreeOff x (r.step asIs (Mirror.pass asIs s as).1).1
      (Mirror.pass asIs t as).1 :=
    fun k hk => (htrail₁.step_frame hk).trans (hagree₁ k hk)
  obtain ⟨hlinks₃, hagree₃⟩ := hagree₂.pass hbs
  rw [pass_append, pass_append, pass_cons]
  refine ⟨⟨_, _, _, rfl, ?_, ?_, ?_⟩, hagree₃⟩
  · simp only [hlinks₁, hlinks₃]
  · exact htrail₁.step_trails.of_eq (pass_frame asIs _ hbs)
  · refine avoids_of_ends ?_ havoid
    rw [List.map_append, List.map_append, pass_ends, pass_ends]

theorem WithLeaf.passes {x : κ} {p q : (κ → α) × List (Link κ α)}
    (h : WithLeaf x p q) (n : Nat) :
    WithLeaf x (passes asIs n p) (passes asIs n q) := by
  induction n generalizing p q with
  | zero => exact h
  | succ n ih => exact ih h.pass

/-- When the smaller net has settled, one more pass settles the larger. -/
theorem WithLeaf.settles {x : κ} {p q : (κ → α) × List (Link κ α)}
    (h : WithLeaf x p q) (hq : ∀ l ∈ q.2, l.Settled q.1) :
    ∀ l ∈ (Mirror.pass asIs p.1 p.2).2,
      l.Settled (Mirror.pass asIs p.1 p.2).1 := by
  obtain ⟨s, ls⟩ := p
  obtain ⟨t, ms⟩ := q
  obtain ⟨⟨as, r, bs, hls, hms, htrail, havoid⟩, hagree⟩ := h
  simp only at hls hms htrail hagree hq
  subst hls hms
  have hset : ∀ u, AgreeOff x u t → ∀ l ∈ as ++ bs, l.Settled u := by
    intro u hu l hl
    obtain ⟨hlive, hsrc, hdst, heq⟩ := hq l hl
    have h₁ := hu l.src (havoid l hl).1
    have h₂ := hu l.dst (havoid l hl).2
    exact ⟨hlive, hsrc.trans h₁.symm, hdst.trans h₂.symm,
      h₁.trans (heq.trans h₂.symm)⟩
  have has : Mirror.pass asIs s as = (s, as) :=
    pass_of_settled asIs s fun l hl =>
      hset s hagree l (List.mem_append_left _ hl)
  have hagree' : AgreeOff x (r.step asIs s).1 t :=
    fun k hk => (htrail.step_frame hk).trans (hagree k hk)
  have hbs : Mirror.pass asIs (r.step asIs s).1 bs =
      ((r.step asIs s).1, bs) :=
    pass_of_settled asIs _ fun l hl =>
      hset _ hagree' l (List.mem_append_right _ hl)
  rw [pass_append, pass_cons, has]
  simp only [hbs]
  intro l hl
  rcases List.mem_append.mp hl with hl | hl
  · exact hset _ hagree' l (List.mem_append_left _ hl)
  · rcases List.mem_cons.mp hl with rfl | hl
    · exact Link.step_settled htrail.noLoop
    · exact hset _ hagree' l (List.mem_append_right _ hl)

/-- One pass over a list with a leaf link makes that link trail. -/
theorem withLeaf_of_pass {s : κ → α} {x : κ} {r : Link κ α}
    {as bs : List (Link κ α)} (hne : r.src ≠ r.dst)
    (hx : r.src = x ∨ r.dst = x) (havoid : ∀ l ∈ as ++ bs, l.Avoids x) :
    ∃ ms, ms.map Link.ends = (as ++ bs).map Link.ends ∧
      WithLeaf x (Mirror.pass asIs s (as ++ r :: bs))
        ((Mirror.pass asIs s (as ++ r :: bs)).1, ms) := by
  rw [pass_append, pass_cons]
  refine ⟨_, ?_, ⟨⟨_, _, _, rfl, rfl, ?_, ?_⟩, fun _ _ => rfl⟩⟩
  · rw [List.map_append, List.map_append, pass_ends, pass_ends]
  · refine (Link.Trails.of_step hne hx).of_eq ?_
    exact pass_frame asIs _ fun l hl => havoid l (List.mem_append_right _ hl)
  · refine avoids_of_ends ?_ havoid
    rw [List.map_append, List.map_append, pass_ends, pass_ends]

/-- Two passes for each link settle a forest. -/
theorem Forest.settles {ls : List (Link κ α)} (h : Forest ls) (s : κ → α) :
    ∀ l ∈ (passes asIs (2 * ls.length) (s, ls)).2,
      l.Settled (passes asIs (2 * ls.length) (s, ls)).1 := by
  induction hn : ls.length generalizing ls s with
  | zero =>
      rw [List.length_eq_zero_iff.mp hn]
      simp
  | succ n ih =>
      have hne : ls ≠ [] := by rintro rfl; simp at hn
      obtain ⟨as, r, bs, x, rfl, hx, havoid⟩ := h.exists_leaf hne
      have hloop := h.noLoop r (by simp)
      obtain ⟨ms, hms, hwith⟩ := withLeaf_of_pass (s := s) hloop hx havoid
      have hlen : ms.length = n := by
        have h₁ := congrArg List.length hms
        simp only [List.length_map, List.length_append] at h₁
        simp only [List.length_append, List.length_cons] at hn
        omega
      have hrest := ih (h.erase.of_ends hms.symm)
        (Mirror.pass asIs s (as ++ r :: bs)).1 hlen
      rw [show 2 * (n + 1) = 2 * n + 1 + 1 by omega, passes_succ, passes_succ']
      exact (hwith.passes (2 * n)).settles hrest

end Mirror
