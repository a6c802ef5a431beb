import Mathlib.Logic.Function.Basic
import Mathlib.Data.List.Range

/-!
# Loops that write slots

Two shapes of loop over a state `σ` come up again and again, and in both the
question is what one slot, seen through `g`, holds at the end.

In the first the loop runs over a list and each turn either leaves the slot or
puts the same value there, so the slot changes exactly if some turn hits it
(`foldl_sets`). In the second the loop counts, and turn `i` reads and writes
slot `i` alone, so slot `i` ends up as turn `i` would have left it had it been
the only one (`foldl_range_local`). `I` is what the turns may assume of the
state and have to keep.
-/

namespace Loop

variable {σ β γ : Type*} {f : σ → β → σ} {g : σ → γ} {I : σ → Prop}

theorem foldl_keeps {bs : List β} (h : ∀ s, ∀ b ∈ bs, g (f s b) = g s) (s : σ) :
    g (bs.foldl f s) = g s := by
  induction bs generalizing s with
  | nil => rfl
  | cons b bs ih =>
      have hhd := h s b List.mem_cons_self
      exact (ih (fun s' b' hb' => h s' b' (List.mem_cons_of_mem _ hb')) _).trans hhd

theorem foldl_inv (h : ∀ s b, I s → I (f s b)) (bs : List β) {s : σ}
    (hs : I s) : I (bs.foldl f s) := by
  induction bs generalizing s with
  | nil => exact hs
  | cons b bs ih => exact ih (h s b hs)

/-- A slot that every turn sets to `x` or leaves alone. -/
theorem foldl_sets {p : β → Prop} [DecidablePred p] {x : γ}
    (hinv : ∀ s b, I s → I (f s b))
    (h : ∀ s b, I s → g (f s b) = if p b then x else g s)
    (bs : List β) {s : σ} (hs : I s) :
    g (bs.foldl f s) = if ∃ b ∈ bs, p b then x else g s := by
  induction bs generalizing s with
  | nil => rw [if_neg (by simp)]; rfl
  | cons b bs ih =>
      rw [List.foldl_cons, ih (hinv s b hs), h s b hs]
      by_cases hb : p b
      · have hmem : ∃ c ∈ b :: bs, p c := ⟨b, List.mem_cons_self, hb⟩
        rw [if_pos hb, if_pos hmem]
        split <;> rfl
      · rw [if_neg hb]
        refine if_congr ?_ rfl rfl
        simp [hb]

theorem foldl_fixed {bs : List β} {s : σ} (h : ∀ b ∈ bs, f s b = s) :
    bs.foldl f s = s := by
  induction bs with
  | nil => rfl
  | cons b bs ih =>
      rw [List.foldl_cons, h b List.mem_cons_self]
      exact ih fun b' hb' => h b' (List.mem_cons_of_mem _ hb')

/-- A counting loop whose turn `i` reads and writes slot `i` only. -/
theorem foldl_range_local {f : σ → Nat → σ} {g : Nat → σ → γ}
    {t : Nat → γ → γ} (n : Nat)
    (hown : ∀ s i, i < n → g i (f s i) = t i (g i s))
    (hother : ∀ s i j, i < n → j ≠ i → g j (f s i) = g j s) (j : Nat)
    (s : σ) :
    g j ((List.range n).foldl f s) =
      if j < n then t j (g j s) else g j s := by
  induction n with
  | zero => rfl
  | succ n ih =>
      have ih := ih (fun s i hi => hown s i (by omega))
        fun s i j hi => hother s i j (by omega)
      rw [List.range_succ, List.foldl_append, List.foldl_cons, List.foldl_nil]
      by_cases hj : j = n
      · subst hj
        rw [hown _ _ (by omega), ih, if_neg (by omega), if_pos (by omega)]
      · rw [hother _ _ _ (by omega) hj, ih]
        refine if_congr ?_ rfl rfl
        omega

end Loop
