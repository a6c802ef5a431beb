import Mathlib.Data.List.Basic

/-!
# Text in pieces

`getlines sep` is what a loop over `std::getline` with the delimiter `sep`
collects. A delimiter ends a piece, so there may be empty ones, but an empty
piece after the last delimiter is not produced: text that ends in a delimiter
and text that does not can have the same pieces. Apart from that the pieces and
the text determine each other (`getlines_intercalate`, `intercalate_getlines`).
-/

namespace Text

variable {α : Type*} [DecidableEq α] {sep : α}

def getlines (sep : α) : List α → List (List α)
  | [] => []
  | c :: cs =>
      if c = sep then [] :: getlines sep cs
      else
        match getlines sep cs with
        | [] => [[c]]
        | p :: ps => (c :: p) :: ps

@[simp] theorem getlines_nil : getlines sep ([] : List α) = [] := rfl

@[simp] theorem getlines_sep (cs : List α) :
    getlines sep (sep :: cs) = [] :: getlines sep cs := by
  rw [getlines, if_pos rfl]

theorem getlines_cons {c : α} (h : c ≠ sep) (cs : List α) :
    getlines sep (c :: cs) =
      (c :: (getlines sep cs).headD []) :: (getlines sep cs).tail := by
  rw [getlines, if_neg h]
  cases getlines sep cs <;> rfl

theorem getlines_append {p : List α} (h : sep ∉ p) (rest : List α) :
    getlines sep (p ++ sep :: rest) = p :: getlines sep rest := by
  induction p with
  | nil => exact getlines_sep rest
  | cons c cs ih =>
      obtain ⟨hc, hcs⟩ := List.ne_and_not_mem_of_not_mem_cons h
      rw [List.cons_append, getlines_cons (Ne.symm hc), ih hcs]
      rfl

theorem getlines_eq_singleton {p : List α} (h : sep ∉ p) (hne : p ≠ []) :
    getlines sep p = [p] := by
  induction p with
  | nil => exact absurd rfl hne
  | cons c cs ih =>
      obtain ⟨hc, hcs⟩ := List.ne_and_not_mem_of_not_mem_cons h
      rw [getlines_cons (Ne.symm hc)]
      cases cs with
      | nil => rfl
      | cons d ds =>
          rw [ih hcs (List.cons_ne_nil d ds)]
          rfl

/-- Pieces without delimiters, the last of them not empty, are the pieces of the
text they make up. -/
theorem getlines_intercalate {ps : List (List α)} (h : ∀ p ∈ ps, sep ∉ p)
    (hlast : ps.getLast? ≠ some []) : getlines sep ([sep].intercalate ps) = ps := by
  induction ps with
  | nil => rfl
  | cons p ps ih =>
      have hp := h p List.mem_cons_self
      cases ps with
      | nil =>
          have hne : p ≠ [] := fun he => hlast (by rw [he]; rfl)
          rw [List.intercalate_singleton]
          exact getlines_eq_singleton hp hne
      | cons q qs =>
          rw [List.intercalate_cons_cons, List.append_assoc, List.singleton_append,
            getlines_append hp,
            ih (fun r hr => h r (List.mem_cons_of_mem p hr))
              (by rwa [List.getLast?_cons_cons] at hlast)]

/-- Text that does not end in a delimiter is made up of its pieces. -/
theorem intercalate_getlines {xs : List α} (h : xs.getLast? ≠ some sep) :
    [sep].intercalate (getlines sep xs) = xs := by
  induction xs with
  | nil => rfl
  | cons c cs ih =>
      cases cs with
      | nil =>
          have hc : c ≠ sep := fun he => h (by rw [he]; rfl)
          rw [getlines_cons hc]
          rfl
      | cons d ds =>
          have hrest := ih (by rwa [List.getLast?_cons_cons] at h)
          obtain ⟨q, qs, hps⟩ : ∃ q qs, getlines sep (d :: ds) = q :: qs := by
            by_cases hd : d = sep
            · rw [hd]; exact ⟨[], _, getlines_sep ds⟩
            · exact ⟨_, _, getlines_cons hd ds⟩
          rw [hps] at hrest
          by_cases hc : c = sep
          · rw [hc, getlines_sep, hps, List.intercalate_cons_cons, hrest]
            rfl
          · rw [getlines_cons hc, hps]
            cases qs with
            | nil =>
                rw [List.intercalate_singleton] at hrest
                rw [List.headD_cons, List.tail_cons, List.intercalate_singleton, hrest]
            | cons r rs =>
                rw [List.intercalate_cons_cons] at hrest
                rw [List.headD_cons, List.tail_cons, List.intercalate_cons_cons,
                  List.cons_append, List.cons_append, hrest]

end Text
