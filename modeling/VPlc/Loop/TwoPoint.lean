import VPlc.Loop.Progress

/-!
# Two-point control

Something rises by `up` in every step, or falls by `down`; at or below `lo` it is
sent up, at or above `hi` it is sent down, and in between it goes on as it did. A
step that does not turn it brings the next turn nearer: `untilRise` counts the
steps to the next turn upwards, and so does `untilFall` for the other one, which is
the same thing seen upside down (`flip`).
-/

namespace Loop

structure TwoPoint (K : Type*) where
  lo : K
  hi : K
  up : K
  down : K

namespace TwoPoint

structure Point (K : Type*) where
  rising : Bool
  level : K

variable {K : Type*} [Field K] [LinearOrder K] [IsStrictOrderedRing K]
  (c : TwoPoint K) (p : Point K)

def move : K := if p.rising then p.level + c.up else p.level - c.down

/-- Move, then look where it is. -/
def next : Point K where
  rising := if c.move p ≤ c.lo then true else if c.hi ≤ c.move p then false else p.rising
  level := c.move p

/-- The limits are in order, and there is something to be moved by. -/
structure Sane : Prop where
  band : c.lo < c.hi
  up : 0 < c.up
  down : 0 < c.down

/-- It has not got to the limit it moves to. -/
def Inside : Prop := if p.rising then p.level < c.hi else c.lo < p.level

variable {c p}

/-! ## Upside down -/

def flip (c : TwoPoint K) : TwoPoint K := ⟨-c.hi, -c.lo, c.down, c.up⟩

def Point.flip (p : Point K) : Point K := ⟨!p.rising, -p.level⟩

theorem Sane.flip (h : c.Sane) : c.flip.Sane :=
  ⟨neg_lt_neg h.band, h.down, h.up⟩

theorem inside_flip (h : c.Inside p) : c.flip.Inside p.flip := by
  unfold Inside TwoPoint.flip Point.flip
  unfold Inside at h
  cases hrising : p.rising with
  | true =>
      rw [hrising, if_pos rfl] at h
      exact neg_lt_neg h
  | false =>
      rw [hrising, if_neg Bool.false_ne_true] at h
      exact neg_lt_neg h

theorem next_flip (h : c.Sane) : c.flip.next p.flip = (c.next p).flip := by
  have hmove : c.flip.move p.flip = -c.move p := by
    obtain ⟨rising, level⟩ := p
    cases rising with
    | true => exact (neg_add' level c.up).symm
    | false =>
        show -level + c.down = -(level - c.down)
        linarith
  have hband := h.band
  have hturn : (if c.flip.move p.flip ≤ -c.hi then true
      else if -c.lo ≤ c.flip.move p.flip then false else !p.rising) =
      !(if c.move p ≤ c.lo then true else if c.hi ≤ c.move p then false else p.rising) := by
    rw [hmove]
    simp only [neg_le_neg_iff]
    by_cases hlow : c.move p ≤ c.lo
    · rw [if_pos hlow, if_pos hlow, if_neg (by linarith)]
      rfl
    · rw [if_neg hlow, if_neg hlow]
      split <;> rfl
  exact congrArg₂ Point.mk hturn hmove

/-! ## The next turn -/

variable [FloorSemiring K]

/-- The steps to the next turn upwards, at most. -/
def untilRise (c : TwoPoint K) (p : Point K) : Nat :=
  if p.rising then strides c.up (c.hi - p.level) + strides c.down (c.hi + c.up - c.lo)
  else strides c.down (p.level - c.lo)

/-- The steps to the next turn downwards. -/
def untilFall (c : TwoPoint K) (p : Point K) : Nat := c.flip.untilRise p.flip

theorem untilRise_next (h : c.Sane) (hin : c.Inside p)
    (hgoal : ¬ (p.rising = false ∧ (c.next p).rising = true)) :
    c.untilRise (c.next p) + 1 ≤ c.untilRise p := by
  have hup := h.up
  have hdown := h.down
  have hband := h.band
  cases hrising : p.rising with
  | true =>
      rw [Inside, hrising, if_pos rfl] at hin
      have hmove : c.move p = p.level + c.up := by rw [move, hrising, if_pos rfl]
      have hone : 1 ≤ strides c.up (c.hi - p.level) := one_le_strides hup (by linarith)
      rw [untilRise, untilRise, hrising, if_pos rfl]
      cases hnext : (c.next p).rising with
      | true =>
          have hless : strides c.up (c.hi - (c.next p).level) ≤
              strides c.up (c.hi - p.level) - 1 := by
            refine strides_le_sub_one hup ?_
            show c.hi - c.move p ≤ _
            linarith
          rw [if_pos rfl]
          omega
      | false =>
          have hturned : strides c.down ((c.next p).level - c.lo) ≤
              strides c.down (c.hi + c.up - c.lo) := by
            refine strides_mono hdown ?_
            show c.move p - c.lo ≤ _
            linarith
          rw [if_neg Bool.false_ne_true]
          omega
  | false =>
      rw [Inside, hrising, if_neg Bool.false_ne_true] at hin
      have hmove : c.move p = p.level - c.down := by
        rw [move, hrising, if_neg Bool.false_ne_true]
      have hnext : (c.next p).rising = false := by
        rw [← Bool.not_eq_true]
        exact fun hnext => hgoal ⟨hrising, hnext⟩
      have hone : 1 ≤ strides c.down (p.level - c.lo) := one_le_strides hdown (by linarith)
      have hless : strides c.down ((c.next p).level - c.lo) ≤
          strides c.down (p.level - c.lo) - 1 := by
        refine strides_le_sub_one hdown ?_
        show c.move p - c.lo ≤ _
        linarith
      rw [untilRise, untilRise, hrising, hnext, if_neg Bool.false_ne_true,
        if_neg Bool.false_ne_true]
      omega

theorem untilFall_next (h : c.Sane) (hin : c.Inside p)
    (hgoal : ¬ (p.rising = true ∧ (c.next p).rising = false)) :
    c.untilFall (c.next p) + 1 ≤ c.untilFall p := by
  rw [untilFall, untilFall, ← next_flip h]
  refine untilRise_next h.flip (inside_flip hin) fun hturn => hgoal ?_
  rw [next_flip h] at hturn
  simpa [Point.flip] using hturn

end TwoPoint

end Loop
