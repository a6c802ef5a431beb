/-!
# What each step of a run does

A run takes the state through `f`, one input after another. `Each f P s bs` says
that `P` holds of every step, each with the state it starts from. Two properties
that agree wherever an invariant holds agree on runs, as long as the invariant is
kept, and to keep it a step may use that it has the property (`each_congr`).
-/

namespace Loop

variable {σ β : Type} {f : σ → β → σ} {P Q : σ → β → Prop} {I : σ → Prop}

/-- `P` holds of every step. -/
def Each (f : σ → β → σ) (P : σ → β → Prop) : σ → List β → Prop
  | _, [] => True
  | s, b :: bs => P s b ∧ Each f P (f s b) bs

theorem each_congr (hiff : ∀ s b, I s → (P s b ↔ Q s b))
    (hkeep : ∀ s b, I s → P s b → I (f s b)) (bs : List β) {s : σ} (hs : I s) :
    Each f P s bs ↔ Each f Q s bs := by
  induction bs generalizing s with
  | nil => exact Iff.rfl
  | cons b bs ih =>
      constructor
      · rintro ⟨hstep, hrest⟩
        exact ⟨(hiff s b hs).mp hstep, (ih (hkeep s b hs hstep)).mp hrest⟩
      · rintro ⟨hstep, hrest⟩
        have hstep' := (hiff s b hs).mpr hstep
        exact ⟨hstep', (ih (hkeep s b hs hstep')).mpr hrest⟩

/-- What each step of a run has, it has for a reason that the invariant gives. -/
theorem Each.imp (himp : ∀ s b, I s → P s b → Q s b ∧ I (f s b)) {bs : List β} {s : σ}
    (hs : I s) (h : Each f P s bs) : Each f Q s bs := by
  induction bs generalizing s with
  | nil => trivial
  | cons b bs ih =>
      obtain ⟨hstep, hrest⟩ := h
      obtain ⟨hhas, hkeeps⟩ := himp s b hs hstep
      exact ⟨hhas, ih hkeeps hrest⟩

theorem Each.foldl {bs : List β} {s : σ} (h : Each f P s bs)
    (hkeep : ∀ s b, I s → P s b → I (f s b)) (hs : I s) : I (bs.foldl f s) := by
  induction bs generalizing s with
  | nil => exact hs
  | cons b bs ih => exact ih h.2 (hkeep s b hs h.1)

theorem Each.and {bs : List β} {s : σ} (h : Each f P s bs) (h' : Each f Q s bs) :
    Each f (fun s b => P s b ∧ Q s b) s bs := by
  induction bs generalizing s with
  | nil => trivial
  | cons b bs ih => exact ⟨⟨h.1, h'.1⟩, ih h.2 h'.2⟩

theorem Each.split {before after : List β} {b : β} {s : σ}
    (h : Each f P s (before ++ b :: after)) : P (before.foldl f s) b := by
  induction before generalizing s with
  | nil => exact h.1
  | cons a before ih => exact ih h.2

theorem each_append {bs cs : List β} {s : σ} :
    Each f P s (bs ++ cs) ↔ Each f P s bs ∧ Each f P (bs.foldl f s) cs := by
  induction bs generalizing s with
  | nil => exact (iff_of_eq (true_and _)).symm
  | cons b bs ih => exact (and_congr_right fun _ => ih).trans and_assoc.symm

theorem each_repeat {bs : List β} (h : ∀ s, I s → Each f P s bs ∧ I (bs.foldl f s)) (n : Nat)
    {s : σ} (hs : I s) : Each f P s (List.replicate n bs).flatten := by
  induction n generalizing s with
  | zero => trivial
  | succ n ih =>
      obtain ⟨hhere, hkeeps⟩ := h s hs
      exact each_append.mpr ⟨hhere, ih hkeeps⟩

end Loop
