import Mathlib.Data.List.Pairwise
import VPlc.Mirror.Basic

/-!
# Links that share no cell

When no two links of a list touch the same cell, a pass is as many independent
steps, and what the second pass does is a question about one link at a time.
The answer (`Apart.second_pass`) is stated with `norm` in place: a link that
copied forward leaves its source alone the next time exactly if the value
survives the way to the destination and back.

Cells that hold the same value whatever is written to them may be shared; no
one can tell that they are.
-/

namespace Mirror

variable {κ α : Type*}

/-- Writing the cell never changes it. -/
def Inert (norm : κ → α → α) (s : κ → α) (k : κ) : Prop :=
  ∀ v, norm k v = s k

/-- A cell at one end of a link. -/
def Link.Touches (k : κ) (l : Link κ α) : Prop := l.src = k ∨ l.dst = k

/-- Links that share inert cells at most. -/
structure Apart (norm : κ → α → α) (s : κ → α) (ls : List (Link κ α)) :
    Prop where
  ends : ∀ l ∈ ls, l.src = l.dst → Inert norm s l.src
  pairs : ls.Pairwise fun l l' =>
    ∀ k, l.Touches k → l'.Touches k → Inert norm s k

theorem Inert.of_eq {norm : κ → α → α} {s t : κ → α} {k : κ}
    (h : Inert norm s k) (ht : t k = s k) : Inert norm t k :=
  fun v => (h v).trans ht.symm

variable [DecidableEq κ] [DecidableEq α] {norm : κ → α → α} {s : κ → α}

theorem Inert.step {k : κ} (h : Inert norm s k) (l : Link κ α) :
    (l.step norm s).1 k = s k := by
  unfold Link.step
  split
  · simp only [Function.update_apply]
    split
    · next hk => subst hk; exact h _
    · rfl
  · simp only [Function.update_apply]
    split
    · next hk => subst hk; exact h _
    · rfl
  · rfl

theorem Inert.pass {k : κ} (h : Inert norm s k) (ls : List (Link κ α)) :
    (pass norm s ls).1 k = s k := by
  induction ls generalizing s with
  | nil => rfl
  | cons l ls ih =>
      rw [pass_cons]
      exact (ih (h.of_eq (h.step l))).trans (h.step l)

/-- A pass over links that have nothing but inert cells in common with `k`
leaves it alone. -/
theorem pass_of_apart {ls : List (Link κ α)} {k : κ}
    (h : ∀ l ∈ ls, l.Touches k → Inert norm s k) :
    (pass norm s ls).1 k = s k := by
  by_cases hk : ∃ l ∈ ls, l.Touches k
  · obtain ⟨l, hl, htouch⟩ := hk
    exact (h l hl htouch).pass ls
  · refine pass_frame norm s fun l hl => ?_
    have hnot : ¬ l.Touches k := fun htouch => hk ⟨l, hl, htouch⟩
    exact ⟨fun he => hnot (Or.inl he), fun he => hnot (Or.inr he)⟩

theorem Apart.pass_local {ls : List (Link κ α)} {l : Link κ α}
    (h : Apart norm s ls) (hl : l ∈ ls) :
    (l.step norm s).2 ∈ (pass norm s ls).2 ∧
      ∀ k, l.Touches k → (pass norm s ls).1 k = (l.step norm s).1 k := by
  obtain ⟨as, bs, rfl⟩ := List.append_of_mem hl
  have hpairs := List.pairwise_append.mp h.pairs
  have hbefore : ∀ k, l.Touches k → (pass norm s as).1 k = s k := by
    intro k hk
    exact pass_of_apart fun a ha htouch =>
      hpairs.2.2 a ha l List.mem_cons_self k htouch hk
  obtain ⟨hlink, hstore⟩ := Link.step_congr norm (l := l)
    (hbefore l.src (Or.inl rfl)) (hbefore l.dst (Or.inr rfl))
  rw [pass_append, pass_cons]
  constructor
  · rw [hlink]
    simp
  · intro k hk
    have hstep : (l.step norm (pass norm s as).1).1 k = (l.step norm s).1 k :=
      hstore k (hbefore k hk)
    refine Eq.trans ?_ hstep
    refine pass_of_apart fun b hb htouch => ?_
    have hinert := (List.pairwise_cons.mp hpairs.2.1).1 b hb k hk htouch
    exact hinert.of_eq (hstep.trans (hinert.step l))

theorem Apart.after_pass {ls : List (Link κ α)} (h : Apart norm s ls) :
    Apart norm (pass norm s ls).1 (pass norm s ls).2 := by
  have hinert : ∀ k, Inert norm s k → Inert norm (pass norm s ls).1 k :=
    fun k hk => hk.of_eq (hk.pass ls)
  constructor
  · intro l' hl' heq
    obtain ⟨l, hl, hs, hd⟩ := mem_before_pass norm s hl'
    rw [← hs]
    exact hinert _ (h.ends l hl (by rw [hs, hd, heq]))
  · have hmap : ((pass norm s ls).2.map Link.ends).Pairwise fun e e' =>
        ∀ k, (e.1 = k ∨ e.2 = k) → (e'.1 = k ∨ e'.2 = k) → Inert norm s k := by
      rw [pass_ends]
      exact List.pairwise_map.mpr h.pairs
    refine (List.pairwise_map.mp hmap).imp fun {l l'} hll' k hk hk' => ?_
    exact hinert k (hll' k hk hk')

/-- One link stepped twice with nothing in between: the second step changes the
source unless the first one copied backwards, or what it copied forward comes
back as it was. -/
theorem Link.second_step {l : Link κ α} (hs : ∀ k, norm k (s k) = s k)
    (hne : l.src = l.dst → Inert norm s l.src) :
    ((l.step norm s).2.step norm (l.step norm s).1).1 l.src =
        (l.step norm s).1 l.src ↔
      norm l.src (norm l.dst (s l.src)) = s l.src ∨ l.move s = .back := by
  by_cases hsd : l.src = l.dst
  · have hin := hne hsd
    have hin₁ : Inert norm (l.step norm s).1 l.src := hin.of_eq (hin.step l)
    exact iff_of_true (hin₁.step _) (Or.inl (hin _))
  · cases hmove : l.move s with
    | idle =>
        obtain ⟨heq, -⟩ := Link.move_idle hmove
        have hset : (l.mark (s l.src)).Settled s :=
          ⟨rfl, rfl, heq, heq⟩
        rw [Link.step_idle hmove]
        simp only
        rw [Link.step_of_settled hset]
        refine iff_of_true rfl (Or.inl ?_)
        rw [heq, hs, ← heq, hs]
    | back =>
        rw [Link.step_back hmove]
        simp only
        refine iff_of_true ?_ (Or.inr trivial)
        -- The destination is as recorded, so nothing is copied back again.
        have hnot : ∀ t : κ → α, t l.dst = s l.dst →
            (l.mark (s l.dst)).move t ≠ .back := by
          intro t ht hb
          exact (Link.move_back.mp hb).2.2 ht
        unfold Link.step
        split
        · exact Function.update_of_ne hsd _ _
        · next hb =>
            exact absurd hb (hnot _ (Function.update_of_ne (Ne.symm hsd) _ _))
        · rfl
    | forward =>
        rw [Link.step_forward hmove]
        simp only [reduceCtorEq, or_false]
        generalize ht : Function.update s l.dst (norm l.dst (s l.src)) = t
        have hsrc : t l.src = s l.src := by
          rw [← ht]; exact Function.update_of_ne hsd _ _
        have hdst : t l.dst = norm l.dst (s l.src) := by
          rw [← ht]; exact Function.update_self _ _ _
        by_cases hw : norm l.dst (s l.src) = s l.src
        · have hset : (l.mark (s l.src)).Settled t :=
            ⟨rfl, hsrc.symm, (hdst.trans hw).symm,
              hsrc.trans (hdst.trans hw).symm⟩
          rw [Link.step_of_settled hset]
          exact iff_of_true rfl (by rw [hw, hs])
        · have hb : (l.mark (s l.src)).move t = .back :=
            Link.move_back.mpr ⟨rfl, hsrc, by
              rw [Link.mark_dst, hdst]; exact hw⟩
          rw [Link.step_back hb]
          simp only [Link.mark_src, Link.mark_dst, Function.update_self]
          rw [hdst, hsrc]

/-- The second of two passes leaves a source alone exactly if its link's value
survives the round trip or the first pass copied it backwards. -/
theorem Apart.second_pass {ls : List (Link κ α)} {l : Link κ α}
    (h : Apart norm s ls) (hs : ∀ k, norm k (s k) = s k) (hl : l ∈ ls) :
    (pass norm (pass norm s ls).1 (pass norm s ls).2).1 l.src =
        (pass norm s ls).1 l.src ↔
      norm l.src (norm l.dst (s l.src)) = s l.src ∨ l.move s = .back := by
  obtain ⟨hmem, hstore⟩ := h.pass_local hl
  obtain ⟨-, hstore₂⟩ := h.after_pass.pass_local hmem
  have hsrc : (l.step norm s).2.Touches l.src := Or.inl (Link.step_src norm s l)
  have hcongr := (Link.step_congr norm (l := (l.step norm s).2)
    (by rw [Link.step_src]; exact hstore l.src (Or.inl rfl))
    (by rw [Link.step_dst]; exact hstore l.dst (Or.inr rfl))).2 l.src
    (hstore l.src (Or.inl rfl))
  rw [hstore₂ l.src hsrc, hcongr, hstore l.src (Or.inl rfl)]
  exact Link.second_step hs (h.ends l hl)

end Mirror
