import Mathlib.Algebra.Order.Field.Basic
import Mathlib.Algebra.Order.Floor.Semiring
import Mathlib.Tactic.Linarith
import VPlc.Loop.Each

/-!
# Runs that come to something

A rank says how many of the steps that count are left until the goal. Every step
that counts lowers it, and the others may come in between as often as they like,
as long as they do not raise it. Then a run with more steps that count than the
rank comes to the goal (`exists_goal`).

For something that moves by at least a fixed distance each time, the rank is the
number of strides (`strides_le_sub_one`).
-/

namespace Loop

variable {σ β : Type} {f : σ → β → σ} {Ok goal : σ → β → Prop} {I : σ → Prop}
  {counts : β → Bool} {rank : σ → Nat}

/-- Short of the goal, a step that is `Ok` keeps the invariant, and the rank goes
down if it counts. -/
structure Countdown (f : σ → β → σ) (Ok goal : σ → β → Prop) (I : σ → Prop)
    (counts : β → Bool) (rank : σ → Nat) : Prop where
  keep : ∀ {s b}, I s → Ok s b → ¬ goal s b → I (f s b)
  lower : ∀ {s b}, I s → Ok s b → ¬ goal s b →
    rank (f s b) + (if counts b then 1 else 0) ≤ rank s

/-- The step that meets the goal, with what came before it. -/
theorem exists_goal (h : Countdown f Ok goal I counts rank) {bs : List β} {s : σ} (hs : I s)
    (hok : Each f Ok s bs) (hmany : rank s < bs.countP counts) :
    ∃ before b after, bs = before ++ b :: after ∧ goal (before.foldl f s) b := by
  induction bs generalizing s with
  | nil => simp at hmany
  | cons b bs ih =>
      by_cases hgoal : goal s b
      · exact ⟨[], b, bs, rfl, hgoal⟩
      · have hlower := h.lower hs hok.1 hgoal
        rw [List.countP_cons] at hmany
        have hrest : rank (f s b) < bs.countP counts := by omega
        obtain ⟨before, b', after, hsplit, hmeets⟩ :=
          ih (h.keep hs hok.1 hgoal) hok.2 hrest
        refine ⟨b :: before, b', after, ?_, hmeets⟩
        rw [hsplit, List.cons_append]

section Strides

variable {K : Type*} [Field K] [LinearOrder K] [IsStrictOrderedRing K] [FloorSemiring K]
  {stride x y : K}

/-- How many strides it takes to cover the distance. -/
def strides (stride distance : K) : Nat := ⌈distance / stride⌉₊

theorem strides_eq_zero (h : 0 < stride) : strides stride x = 0 ↔ x ≤ 0 := by
  rw [strides, Nat.ceil_eq_zero, div_le_iff₀ h, zero_mul]

theorem one_le_strides (h : 0 < stride) (hx : 0 < x) : 1 ≤ strides stride x := by
  rw [Nat.one_le_iff_ne_zero, Ne, strides_eq_zero h]
  exact not_le.mpr hx

theorem strides_le {n : Nat} (h : 0 < stride) (hle : x ≤ n * stride) : strides stride x ≤ n :=
  Nat.ceil_le.mpr ((div_le_iff₀ h).mpr hle)

theorem strides_mono (h : 0 < stride) (hle : x ≤ y) : strides stride x ≤ strides stride y :=
  Nat.ceil_mono (div_le_div_of_nonneg_right hle h.le)

theorem strides_le_sub_one (h : 0 < stride) (hle : y ≤ x - stride) :
    strides stride y ≤ strides stride x - 1 := by
  by_cases hx : strides stride x = 0
  · have hy : y ≤ 0 := by
      have hx := (strides_eq_zero h).mp hx
      linarith
    rw [(strides_eq_zero h).mpr hy]
    exact Nat.zero_le _
  · have hone : 1 ≤ strides stride x := Nat.one_le_iff_ne_zero.mpr hx
    refine Nat.ceil_le.mpr ?_
    rw [Nat.cast_sub hone, Nat.cast_one]
    have hceil : x / stride ≤ strides stride x := Nat.le_ceil _
    have hdiv : y / stride ≤ x / stride - 1 := by
      rw [← div_self h.ne', ← sub_div]
      exact div_le_div_of_nonneg_right hle h.le
    exact hdiv.trans (sub_le_sub_right hceil 1)

end Strides

end Loop
