import Mathlib.Logic.Function.Basic
import Mathlib.Logic.Function.Iterate

/-!
# Links that keep two cells equal

A store is a function from cells to values. A `Link` joins two cells and
remembers what it last saw at each; one `step` of it looks for a change at the
source, then at the destination, and copies the changed value across. A `pass`
steps through a list of links in order, each seeing what the earlier ones wrote.

Cells may refuse a value: `norm k v` is what cell `k` holds once `v` has been
written to it. A link records the value it meant to write and not the one that
arrived, so everything here that says two ends agree asks that `norm` be out of
the way. `pass_eq_asIs` is how it gets out of the way: on a store whose cells
hold values of their own, between cells that take the same values, the engine
is the one that writes values as they are.

Two conditions on a link do the work downstream. `Settled` says the ends agree
with each other and with the record; such a link does nothing. `Held` says only
that the destination is as the link left it; such a link copies its source
over, whatever the source has become.
-/

namespace Mirror

/-- Two cells, the values last seen at them, and whether there are any. -/
structure Link (κ α : Type*) where
  src : κ
  dst : κ
  lastSrc : α
  lastDst : α
  live : Bool

/-- Which way a link copies. -/
inductive Move
  | forward | back | idle
  deriving DecidableEq

/-- Values written as they are. -/
def asIs {κ α : Type*} : κ → α → α := fun _ v => v

variable {κ α : Type*}

namespace Link

/-- Record one value for both ends. -/
def mark (l : Link κ α) (v : α) : Link κ α :=
  { l with lastSrc := v, lastDst := v, live := true }

def ends (l : Link κ α) : κ × κ := (l.src, l.dst)

/-- The cell is neither end of the link. -/
def Avoids (k : κ) (l : Link κ α) : Prop := l.src ≠ k ∧ l.dst ≠ k

/-- Both ends hold what the link recorded, and that is one value. -/
def Settled (s : κ → α) (l : Link κ α) : Prop :=
  l.live = true ∧ l.lastSrc = s l.src ∧ l.lastDst = s l.dst ∧
    s l.src = s l.dst

/-- The destination is as the link left it. -/
def Held (s : κ → α) (l : Link κ α) : Prop :=
  l.live = true ∧ l.lastSrc = l.lastDst ∧ s l.dst = l.lastDst

@[simp] theorem mark_src (l : Link κ α) (v : α) : (l.mark v).src = l.src := rfl
@[simp] theorem mark_dst (l : Link κ α) (v : α) : (l.mark v).dst = l.dst := rfl
@[simp] theorem mark_ends (l : Link κ α) (v : α) : (l.mark v).ends = l.ends := rfl

theorem mark_eq_self {l : Link κ α} {v : α} (hl : l.live = true)
    (hs : l.lastSrc = v) (hd : l.lastDst = v) : l.mark v = l := by
  obtain ⟨src, dst, ls, ld, live⟩ := l
  simp only at hl hs hd
  subst hl hs hd
  rfl

theorem Settled.held {s : κ → α} {l : Link κ α} (h : l.Settled s) :
    l.Held s :=
  ⟨h.1, (h.2.1.trans h.2.2.2).trans h.2.2.1.symm, h.2.2.1.symm⟩

/-- Whatever the source holds now will be copied over. -/
def Follows (s : κ → α) (l : Link κ α) : Prop := l.live = false ∨ l.Held s

theorem Held.of_eq {s t : κ → α} {l : Link κ α} (h : l.Held s)
    (hd : t l.dst = s l.dst) : l.Held t :=
  ⟨h.1, h.2.1, hd.trans h.2.2⟩

theorem Follows.of_eq {s t : κ → α} {l : Link κ α} (h : l.Follows s)
    (hd : t l.dst = s l.dst) : l.Follows t :=
  h.imp_right fun hheld => hheld.of_eq hd

section Move

variable [DecidableEq α]

/-- A changed source wins over a changed destination, and a link that has seen
nothing yet takes its source's word. -/
def move (s : κ → α) (l : Link κ α) : Move :=
  if l.live then
    if s l.src ≠ l.lastSrc then .forward
    else if s l.dst ≠ l.lastDst then .back
    else if s l.src ≠ s l.dst then .forward
    else .idle
  else if s l.src ≠ s l.dst then .forward
  else .idle

/-- Why a link stands still: its ends agree, and a live link recorded them. -/
theorem move_idle {s : κ → α} {l : Link κ α} (h : l.move s = .idle) :
    s l.src = s l.dst ∧
      (l.live = true → l.lastSrc = s l.src ∧ l.lastDst = s l.dst) := by
  unfold move at h
  split at h
  · split at h
    · cases h
    · next hsrc =>
        split at h
        · cases h
        · next hdst =>
            split at h
            · cases h
            · next heq =>
                exact ⟨not_not.mp heq, fun _ =>
                  ⟨(not_not.mp hsrc).symm, (not_not.mp hdst).symm⟩⟩
  · next hlive =>
      split at h
      · cases h
      · next heq => exact ⟨not_not.mp heq, fun hl => absurd hl hlive⟩

/-- Only a live link whose source has not changed ever copies backwards. -/
theorem move_back {s : κ → α} {l : Link κ α} :
    l.move s = .back ↔
      l.live = true ∧ s l.src = l.lastSrc ∧ s l.dst ≠ l.lastDst := by
  unfold move
  split
  · next hlive =>
      split
      · next hsrc => simp [hsrc]
      · next hsrc =>
          split
          · next hdst => simp [hlive, not_not.mp hsrc, hdst]
          · next hdst => split <;> simp [not_not.mp hdst]
  · next hlive => split <;> simp [hlive]

theorem move_of_settled {s : κ → α} {l : Link κ α} (h : l.Settled s) :
    l.move s = .idle := by
  obtain ⟨hlive, hsrc, hdst, heq⟩ := h
  unfold move
  rw [if_pos hlive, if_neg (not_not.mpr hsrc.symm),
    if_neg (not_not.mpr hdst.symm), if_neg (not_not.mpr heq)]

theorem move_of_src_ne {s : κ → α} {l : Link κ α} (hlive : l.live = true)
    (hsrc : s l.src ≠ l.lastSrc) : l.move s = .forward := by
  unfold move
  rw [if_pos hlive, if_pos hsrc]

end Move

variable [DecidableEq κ] [DecidableEq α]

def step (norm : κ → α → α) (s : κ → α) (l : Link κ α) :
    (κ → α) × Link κ α :=
  match l.move s with
  | .forward =>
      (Function.update s l.dst (norm l.dst (s l.src)), l.mark (s l.src))
  | .back =>
      (Function.update s l.src (norm l.src (s l.dst)), l.mark (s l.dst))
  | .idle => (s, l.mark (s l.src))

/-! ## One step -/

theorem step_forward {norm : κ → α → α} {s : κ → α} {l : Link κ α}
    (h : l.move s = .forward) :
    l.step norm s =
      (Function.update s l.dst (norm l.dst (s l.src)), l.mark (s l.src)) := by
  unfold step; rw [h]

theorem step_back {norm : κ → α → α} {s : κ → α} {l : Link κ α}
    (h : l.move s = .back) :
    l.step norm s =
      (Function.update s l.src (norm l.src (s l.dst)), l.mark (s l.dst)) := by
  unfold step; rw [h]

theorem step_idle {norm : κ → α → α} {s : κ → α} {l : Link κ α}
    (h : l.move s = .idle) : l.step norm s = (s, l.mark (s l.src)) := by
  unfold step; rw [h]

@[simp] theorem step_ends (norm : κ → α → α) (s : κ → α) (l : Link κ α) :
    (l.step norm s).2.ends = l.ends := by
  unfold step
  split <;> rfl

@[simp] theorem step_src (norm : κ → α → α) (s : κ → α) (l : Link κ α) :
    (l.step norm s).2.src = l.src :=
  congrArg Prod.fst (step_ends norm s l)

@[simp] theorem step_dst (norm : κ → α → α) (s : κ → α) (l : Link κ α) :
    (l.step norm s).2.dst = l.dst :=
  congrArg Prod.snd (step_ends norm s l)

/-- A link writes at its own ends only. -/
theorem step_frame (norm : κ → α → α) (s : κ → α) {l : Link κ α} {k : κ}
    (h : l.Avoids k) : (l.step norm s).1 k = s k := by
  unfold step
  split
  · exact Function.update_of_ne (Ne.symm h.2) _ _
  · exact Function.update_of_ne (Ne.symm h.1) _ _
  · rfl

/-- What a link does depends on its ends alone: stores that agree there are
taken to stores that agree wherever they did before. -/
theorem step_congr (norm : κ → α → α) {s t : κ → α} {l : Link κ α}
    (hsrc : s l.src = t l.src) (hdst : s l.dst = t l.dst) :
    (l.step norm s).2 = (l.step norm t).2 ∧
      ∀ k, s k = t k → (l.step norm s).1 k = (l.step norm t).1 k := by
  have hmove : l.move s = l.move t := by
    unfold move
    rw [hsrc, hdst]
  unfold step
  rw [hmove, hsrc, hdst]
  split
  · refine ⟨rfl, fun k hk => ?_⟩
    simp only [Function.update_apply, hk]
  · refine ⟨rfl, fun k hk => ?_⟩
    simp only [Function.update_apply, hk]
  · exact ⟨rfl, fun _ hk => hk⟩

theorem step_of_settled {norm : κ → α → α} {s : κ → α} {l : Link κ α}
    (h : l.Settled s) : l.step norm s = (s, l) := by
  rw [step_idle (move_of_settled h)]
  obtain ⟨hlive, hsrc, hdst, heq⟩ := h
  rw [mark_eq_self hlive hsrc (hdst.trans heq.symm)]

/-- Whatever a link does, its ends agree afterwards and it knows. -/
theorem step_settled {s : κ → α} {l : Link κ α} (hne : l.src ≠ l.dst) :
    (l.step asIs s).2.Settled (l.step asIs s).1 := by
  unfold step
  split
  · simp [Settled, mark, asIs, Function.update_of_ne hne]
  · simp [Settled, mark, asIs, Function.update_of_ne hne.symm]
  · next h =>
      have heq := (move_idle h).1
      simp [Settled, mark, heq]

/-- A held link copies its source over, and when there is nothing to copy that
is also what standing still looks like. -/
theorem step_of_held {s : κ → α} {l : Link κ α} (h : l.Held s) :
    l.step asIs s = (Function.update s l.dst (s l.src), l.mark (s l.src)) := by
  obtain ⟨hlive, hlast, hdst⟩ := h
  by_cases hsrc : s l.src = l.lastSrc
  · have heq : s l.src = s l.dst := hsrc.trans (hlast.trans hdst.symm)
    have hidle : l.Settled s := ⟨hlive, hsrc.symm, hdst.symm, heq⟩
    rw [step_of_settled hidle, heq, Function.update_eq_self,
      mark_eq_self hlive (hsrc.symm.trans heq) hdst.symm]
  · rw [step_forward (move_of_src_ne hlive hsrc)]
    rfl

/-- A link that has seen nothing yet copies as well. -/
theorem step_of_dead {s : κ → α} {l : Link κ α} (h : l.live = false) :
    l.step asIs s = (Function.update s l.dst (s l.src), l.mark (s l.src)) := by
  have hlive : ¬ l.live = true := by rw [h]; exact Bool.false_ne_true
  by_cases heq : s l.src = s l.dst
  · have hmove : l.move s = .idle := by
      unfold move
      rw [if_neg hlive, if_neg (not_not.mpr heq)]
    rw [step_idle hmove, heq, Function.update_eq_self]
  · have hmove : l.move s = .forward := by
      unfold move
      rw [if_neg hlive, if_pos heq]
    rw [step_forward hmove]
    rfl

theorem step_of_follows {s : κ → α} {l : Link κ α} (h : l.Follows s) :
    l.step asIs s = (Function.update s l.dst (s l.src), l.mark (s l.src)) :=
  h.elim step_of_dead step_of_held

/-- A link that recorded one value for both ends: a source that still holds it
takes the destination's value over, any other source keeps its own. -/
theorem step_src_of_mark {l : Link κ α} {s : κ → α} (hlive : l.live = true)
    (hlast : l.lastSrc = l.lastDst) (hne : l.src ≠ l.dst) :
    (l.step asIs s).1 l.src =
      if s l.src = l.lastSrc then s l.dst else s l.src := by
  split
  · next hseen =>
      by_cases hd : s l.dst = l.lastDst
      · have heq : s l.src = s l.dst := hseen.trans (hlast.trans hd.symm)
        rw [step_of_settled ⟨hlive, hseen.symm, hd.symm, heq⟩]
        exact heq
      · rw [step_back (move_back.mpr ⟨hlive, hseen, hd⟩)]
        exact Function.update_self _ _ _
  · next hseen =>
      rw [step_forward (move_of_src_ne hlive hseen)]
      exact Function.update_of_ne hne _ _

end Link

variable [DecidableEq κ] [DecidableEq α]

/-! ## A pass -/

/-- Step through the links in order. -/
def pass (norm : κ → α → α) (s : κ → α) :
    List (Link κ α) → (κ → α) × List (Link κ α)
  | [] => (s, [])
  | l :: ls =>
      ((pass norm (l.step norm s).1 ls).1,
        (l.step norm s).2 :: (pass norm (l.step norm s).1 ls).2)

def passes (norm : κ → α → α) (n : Nat)
    (p : (κ → α) × List (Link κ α)) : (κ → α) × List (Link κ α) :=
  (fun p => pass norm p.1 p.2)^[n] p

section Pass

variable (norm : κ → α → α) (s : κ → α)

@[simp] theorem pass_nil : pass norm s [] = (s, []) := rfl

theorem pass_cons (l : Link κ α) (ls : List (Link κ α)) :
    pass norm s (l :: ls) =
      ((pass norm (l.step norm s).1 ls).1,
        (l.step norm s).2 :: (pass norm (l.step norm s).1 ls).2) := rfl

theorem pass_append (as bs : List (Link κ α)) :
    pass norm s (as ++ bs) =
      ((pass norm (pass norm s as).1 bs).1,
        (pass norm s as).2 ++ (pass norm (pass norm s as).1 bs).2) := by
  induction as generalizing s with
  | nil => rfl
  | cons a as ih =>
      rw [List.cons_append, pass_cons, ih, pass_cons]
      rfl

@[simp] theorem pass_ends (ls : List (Link κ α)) :
    (pass norm s ls).2.map Link.ends = ls.map Link.ends := by
  induction ls generalizing s with
  | nil => rfl
  | cons l ls ih =>
      rw [pass_cons, List.map_cons, List.map_cons, ih, Link.step_ends]

theorem mem_before_pass {ls : List (Link κ α)} {l' : Link κ α}
    (h : l' ∈ (pass norm s ls).2) :
    ∃ l ∈ ls, l.src = l'.src ∧ l.dst = l'.dst := by
  have hmem : l'.ends ∈ ls.map Link.ends := by
    rw [← pass_ends norm s ls]; exact List.mem_map_of_mem h
  obtain ⟨l, hl, he⟩ := List.mem_map.mp hmem
  exact ⟨l, hl, congrArg Prod.fst he, congrArg Prod.snd he⟩

/-- A pass writes at the ends of its links only. -/
theorem pass_frame {ls : List (Link κ α)} {k : κ}
    (h : ∀ l ∈ ls, l.Avoids k) : (pass norm s ls).1 k = s k := by
  induction ls generalizing s with
  | nil => rfl
  | cons l ls ih =>
      rw [pass_cons]
      rw [ih _ fun l' hl' => h l' (List.mem_cons_of_mem _ hl')]
      exact Link.step_frame norm s (h l List.mem_cons_self)

theorem pass_of_settled {ls : List (Link κ α)} (h : ∀ l ∈ ls, l.Settled s) :
    pass norm s ls = (s, ls) := by
  induction ls with
  | nil => rfl
  | cons l ls ih =>
      rw [pass_cons, Link.step_of_settled (h l List.mem_cons_self)]
      rw [ih fun l' hl' => h l' (List.mem_cons_of_mem _ hl')]

@[simp] theorem passes_zero (p : (κ → α) × List (Link κ α)) :
    passes norm 0 p = p := rfl

theorem passes_succ (n : Nat) (p : (κ → α) × List (Link κ α)) :
    passes norm (n + 1) p = passes norm n (pass norm p.1 p.2) := rfl

theorem passes_succ' (n : Nat) (p : (κ → α) × List (Link κ α)) :
    passes norm (n + 1) p =
      pass norm (passes norm n p).1 (passes norm n p).2 :=
  Function.iterate_succ_apply' _ n p

end Pass

/-! ## Getting `norm` out of the way -/

section Norm

variable {norm : κ → α → α} {s : κ → α}

/-- Between cells that take the same values, out of a store whose cells hold
values of their own, a link writes what it means to. -/
theorem step_eq_asIs {l : Link κ α} (hs : ∀ k, norm k (s k) = s k)
    (hl : norm l.src = norm l.dst) : l.step norm s = l.step asIs s := by
  have hsrc : norm l.dst (s l.src) = s l.src := by rw [← hl, hs]
  have hdst : norm l.src (s l.dst) = s l.dst := by rw [hl, hs]
  unfold Link.step
  rw [hsrc, hdst]
  rfl

/-- And leaves such a store behind. -/
theorem norm_step_asIs {l : Link κ α} (hs : ∀ k, norm k (s k) = s k)
    (hl : norm l.src = norm l.dst) (k : κ) :
    norm k ((l.step asIs s).1 k) = (l.step asIs s).1 k := by
  unfold Link.step
  split <;> dsimp only
  · by_cases hk : k = l.dst
    · subst hk
      rw [Function.update_self, asIs, ← hl, hs]
    · rw [Function.update_of_ne hk, hs]
  · by_cases hk : k = l.src
    · subst hk
      rw [Function.update_self, asIs, hl, hs]
    · rw [Function.update_of_ne hk, hs]
  · exact hs k

theorem pass_eq_asIs {ls : List (Link κ α)} (hs : ∀ k, norm k (s k) = s k)
    (hl : ∀ l ∈ ls, norm l.src = norm l.dst) :
    pass norm s ls = pass asIs s ls := by
  induction ls generalizing s with
  | nil => rfl
  | cons l ls ih =>
      have hhd := hl l List.mem_cons_self
      rw [pass_cons, pass_cons, step_eq_asIs hs hhd]
      rw [ih (norm_step_asIs hs hhd)
        fun l' hl' => hl l' (List.mem_cons_of_mem _ hl')]

end Norm

end Mirror
