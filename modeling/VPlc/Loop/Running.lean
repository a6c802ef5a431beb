import Mathlib.Algebra.Order.BigOperators.Group.List
import Mathlib.Algebra.Order.Field.Basic
import Mathlib.Order.Bounds.Basic
import Mathlib.Tactic.FieldSimp
import Mathlib.Tactic.Ring

/-!
# Running statistics

A mean and a maximum can be kept without keeping the samples: the mean moves
towards a new sample by the `n`-th part of the distance, the maximum is the
larger of the two (`mean_concat`, `isGreatest_concat`). `n` has to be the number
of samples. A mean that was started with a zero that is none of them is the
mean of the samples only if they are all zero (`mean_cons_zero_iff`).
-/

namespace Loop

section Mean

variable {K : Type*} [Field K]

def mean (xs : List K) : K := xs.sum / xs.length

@[simp] theorem mean_singleton (x : K) : mean [x] = x := by
  simp [mean]

variable [CharZero K]

theorem mean_mul_length (xs : List K) : mean xs * xs.length = xs.sum := by
  cases xs with
  | nil => simp
  | cons x xs =>
      have hne : ((x :: xs).length : K) ≠ 0 := Nat.cast_ne_zero.mpr (Nat.succ_ne_zero _)
      exact div_mul_cancel₀ _ hne

theorem mean_concat (xs : List K) (x : K) :
    mean (xs ++ [x]) = mean xs + (x - mean xs) / (xs ++ [x]).length := by
  have hlen : ((xs ++ [x]).length : K) = xs.length + 1 := by
    rw [List.length_append, List.length_singleton, Nat.cast_succ]
  have hne : (xs.length : K) + 1 ≠ 0 := Nat.cast_add_one_ne_zero xs.length
  have hsum : (xs ++ [x]).sum = mean xs * xs.length + x := by
    rw [List.sum_append, List.sum_singleton, mean_mul_length]
  rw [mean, hsum, hlen]
  field_simp
  ring

variable [LinearOrder K] [IsStrictOrderedRing K]

/-- A zero in front of samples that are not negative. -/
theorem mean_cons_zero_iff {xs : List K} (hne : xs ≠ []) (hnonneg : ∀ x ∈ xs, 0 ≤ x) :
    mean (0 :: xs) = mean xs ↔ ∀ x ∈ xs, x = 0 := by
  have hlen : (xs.length : K) ≠ 0 :=
    Nat.cast_ne_zero.mpr (mt List.length_eq_zero_iff.mp hne)
  have hlen' : ((0 :: xs).length : K) = xs.length + 1 := Nat.cast_succ xs.length
  have hne' : (xs.length : K) + 1 ≠ 0 := Nat.cast_add_one_ne_zero xs.length
  rw [mean, mean, List.sum_cons, zero_add, hlen', div_eq_div_iff hne' hlen]
  constructor
  · intro h
    rw [mul_add, mul_one] at h
    have hsum : xs.sum = 0 := left_eq_add.mp h
    exact fun x hx => List.all_zero_of_le_zero_le_of_sum_eq_zero hnonneg hsum hx
  · intro h
    rw [List.sum_eq_zero h, zero_mul, zero_mul]

end Mean

theorem isGreatest_concat {K : Type*} [LinearOrder K] {xs : List K} {a : K}
    (h : IsGreatest {y | y ∈ xs} a) (x : K) :
    IsGreatest {y | y ∈ xs ++ [x]} (max a x) := by
  have hset : {y | y ∈ xs ++ [x]} = insert x {y | y ∈ xs} := by
    ext y
    simp [or_comm]
  rw [hset, max_comm]
  exact h.insert x

end Loop
