import Mathlib.Data.List.Perm.Basic
import VPlc.Threads.Program

/-!
# One thread among writers

A program is carried out call by call, and between its calls others write to the
store, one cell a time. `Interleaved` is what can come of it.

If the program comes to each cell at most once, the writers may as well have kept
out of its way (`Interleaved.atomic`): some of the writes can be done before it
and the others after it, with the same store at the end and the same answer. A
write to a cell the program has already been to goes behind, any other in front.
The proof is by induction on the interleaving, from its end; with each call, the
writes that were to go in front of the rest but are to the cell of this call
change over to the back.
-/

namespace Threads

variable {σ Op ω κ α β γ : Type} {Ret : Op → Type}

/-- The program returns `a` and leaves `s'`, while others make the writes `ws`. -/
inductive Interleaved (exec : (op : Op) → σ → σ × Ret op) (apply : σ → ω → σ) :
    Prog Op Ret α → σ → List ω → σ → α → Prop
  | ret (a : α) (s : σ) : Interleaved exec apply (.ret a) s [] s a
  | pause {p : Prog Op Ret α} {s s' : σ} {ws : List ω} {a : α}
      (h : Interleaved exec apply p s ws s' a) : Interleaved exec apply (.pause p) s ws s' a
  | call {op : Op} {next : Ret op → Prog Op Ret α} {s s' : σ} {ws : List ω} {a : α}
      (h : Interleaved exec apply (next (exec op s).2) (exec op s).1 ws s' a) :
      Interleaved exec apply (.call op next) s ws s' a
  | other {p : Prog Op Ret α} {s s' : σ} {w : ω} {ws : List ω} {a : α}
      (h : Interleaved exec apply p (apply s w) ws s' a) :
      Interleaved exec apply p s (w :: ws) s' a

theorem Interleaved.others {exec : (op : Op) → σ → σ × Ret op} {apply : σ → ω → σ}
    {p : Prog Op Ret α} {s s' : σ} {ws : List ω} {a : α} (vs : List ω)
    (h : Interleaved exec apply p (vs.foldl apply s) ws s' a) :
    Interleaved exec apply p s (vs ++ ws) s' a := by
  induction vs generalizing s with
  | nil => exact h
  | cons v vs ih => exact .other (ih h)

theorem Interleaved.undisturbed (exec : (op : Op) → σ → σ × Ret op) (apply : σ → ω → σ)
    (p : Prog Op Ret α) (s : σ) :
    Interleaved exec apply p s [] (alone exec p s).1 (alone exec p s).2 := by
  induction p generalizing s with
  | ret a => exact .ret a s
  | pause next ih => exact .pause (ih s)
  | call op next ih => exact .call (ih _ _)

/-- Writes that come in parts may be seen as their parts, one after the other. -/
theorem Interleaved.parts {ω' : Type} {exec : (op : Op) → σ → σ × Ret op} {apply : σ → ω → σ}
    {apply' : σ → ω' → σ} {I : σ → Prop} {parts : ω → List ω'}
    (hexec : ∀ op s, I s → I (exec op s).1) (hkeep : ∀ s w, I s → I (apply s w))
    (hparts : ∀ s w, I s → apply s w = (parts w).foldl apply' s) {p : Prog Op Ret α}
    {s s' : σ} {ws : List ω} {a : α} (h : Interleaved exec apply p s ws s' a) (hs : I s) :
    Interleaved exec apply' p s (ws.flatMap parts) s' a := by
  induction h with
  | ret a s => exact .ret a s
  | pause _ ih => exact .pause (ih hs)
  | @call op next s s' ws a _ ih => exact .call (ih (hexec op s hs))
  | @other p s s' w ws a _ ih =>
      have hrest := ih (hkeep s w hs)
      rw [hparts s w hs] at hrest
      exact hrest.others (parts w)

section Once

variable (cell : Op → κ)

/-- Nobody comes to the cell. -/
def Prog.Avoids (c : κ) (p : Prog Op Ret α) : Prop := p.Calls fun op => cell op ≠ c

/-- The cell is come to at most once. -/
def Prog.Once (c : κ) : Prog Op Ret α → Prop
  | .ret _ => True
  | .pause next => next.Once c
  | .call op next =>
      (cell op ≠ c ∧ ∀ r, (next r).Once c) ∨ ∀ r, (next r).Avoids cell c

variable {cell} {c : κ} {p : Prog Op Ret α} {f : α → Prog Op Ret β}

theorem Prog.Avoids.once (h : p.Avoids cell c) : p.Once cell c := by
  induction p with
  | ret a => trivial
  | pause next ih => exact ih h
  | call op next ih => exact .inl ⟨h.1, fun r => ih r (h.2 r)⟩

theorem Prog.Avoids.bind_once (hp : p.Avoids cell c) (hf : ∀ a, (f a).Once cell c) :
    (p.bind f).Once cell c := by
  induction p with
  | ret a => exact hf a
  | pause next ih => exact ih hp
  | call op next ih => exact .inl ⟨hp.1, fun r => ih r (hp.2 r)⟩

theorem Prog.Once.bind_avoids (hp : p.Once cell c) (hf : ∀ a, (f a).Avoids cell c) :
    (p.bind f).Once cell c := by
  induction p with
  | ret a => exact (hf a).once
  | pause next ih => exact ih hp
  | call op next ih =>
      rcases hp with ⟨hne, hnext⟩ | hnext
      · exact .inl ⟨hne, fun r => ih r (hnext r)⟩
      · exact .inr fun r => (hnext r).bind hf

end Once

section Atomic

variable {exec : (op : Op) → σ → σ × Ret op} {apply : σ → ω → σ} {cell : Op → κ}
  {target : ω → κ}

/-- Calls and writes that are not to one cell commute, and so do writes. -/
structure Independent (exec : (op : Op) → σ → σ × Ret op) (apply : σ → ω → σ)
    (cell : Op → κ) (target : ω → κ) : Prop where
  call : ∀ {op w}, cell op ≠ target w → ∀ s,
    exec op (apply s w) = (apply (exec op s).1 w, (exec op s).2)
  write : ∀ {w w'}, target w ≠ target w' → ∀ s, apply (apply s w) w' = apply (apply s w') w

theorem Independent.exec_foldl (h : Independent exec apply cell target) {op : Op}
    {ws : List ω} (hws : ∀ w ∈ ws, cell op ≠ target w) (s : σ) :
    exec op (ws.foldl apply s) = (ws.foldl apply (exec op s).1, (exec op s).2) := by
  induction ws generalizing s with
  | nil => rfl
  | cons w ws ih =>
      rw [List.foldl_cons, List.foldl_cons, ih fun v hv => hws v (List.mem_cons_of_mem w hv),
        h.call (hws w List.mem_cons_self)]

theorem Independent.alone_foldl (h : Independent exec apply cell target)
    {p : Prog Op Ret α} {ws : List ω} (hws : ∀ w ∈ ws, p.Avoids cell (target w)) (s : σ) :
    alone exec p (ws.foldl apply s) =
      (ws.foldl apply (alone exec p s).1, (alone exec p s).2) := by
  induction p generalizing s with
  | ret a => rfl
  | pause next ih => exact ih hws s
  | call op next ih =>
      rw [alone, alone, h.exec_foldl fun w hw => (hws w hw).1]
      exact ih _ (fun w hw => (hws w hw).2 _) _

/-- Writes to one cell can wait for those to the others. -/
theorem Independent.foldl_filter [DecidableEq κ] (h : Independent exec apply cell target)
    (c : κ) (ws : List ω) (s : σ) :
    ws.foldl apply s =
      (ws.filter fun w => target w = c).foldl apply
        ((ws.filter fun w => ¬ target w = c).foldl apply s) := by
  have hpass {w : ω} (hw : target w = c) {vs : List ω} (hvs : ∀ v ∈ vs, target v ≠ c) (s : σ) :
      vs.foldl apply (apply s w) = apply (vs.foldl apply s) w := by
    induction vs generalizing s with
    | nil => rfl
    | cons v vs ih =>
        have hvw : target w ≠ target v := hw ▸ (hvs v List.mem_cons_self).symm
        rw [List.foldl_cons, List.foldl_cons, h.write hvw,
          ih fun u hu => hvs u (List.mem_cons_of_mem v hu)]
  induction ws generalizing s with
  | nil => rfl
  | cons w ws ih =>
      rw [List.foldl_cons, ih]
      by_cases hw : target w = c
      · simp only [List.filter_cons, hw, decide_true, not_true, decide_false, if_true,
          List.foldl_cons, Bool.false_eq_true, if_false]
        rw [hpass hw]
        intro v hv
        simpa using (List.mem_filter.mp hv).2
      · simp only [List.filter_cons, hw, decide_true, not_false_eq_true, decide_false, if_true,
          List.foldl_cons, Bool.false_eq_true, if_false]

/-- A program that comes to each written cell at most once does all its work
between some of the writes and the rest. -/
theorem Interleaved.atomic [DecidableEq κ] (hind : Independent exec apply cell target)
    {p : Prog Op Ret α} {s s' : σ} {ws : List ω} {a : α}
    (h : Interleaved exec apply p s ws s' a) (honce : ∀ w ∈ ws, p.Once cell (target w)) :
    ∃ before after : List ω, (before ++ after).Perm ws ∧
      s' = after.foldl apply (alone exec p (before.foldl apply s)).1 ∧
      a = (alone exec p (before.foldl apply s)).2 := by
  induction h with
  | ret a s => exact ⟨[], [], .refl [], rfl, rfl⟩
  | pause _ ih => exact ih honce
  | @other p s s' w ws a _ ih =>
      obtain ⟨before, after, hperm, hs, ha⟩ :=
        ih fun v hv => honce v (List.mem_cons_of_mem w hv)
      exact ⟨w :: before, after, hperm.cons w, hs, ha⟩
  | @call op next s s' ws a _ ih =>
      have hnext : ∀ w ∈ ws, (next (exec op s).2).Once cell (target w) := by
        intro w hw
        rcases honce w hw with ⟨-, hn⟩ | hn
        · exact hn _
        · exact (hn _).once
      obtain ⟨before, after, hperm, hs, ha⟩ := ih hnext
      -- the cell of this call has been seen to
      let moved := before.filter fun w => target w = cell op
      let kept := before.filter fun w => ¬ target w = cell op
      have hmoved : ∀ w ∈ moved, (next (exec op s).2).Avoids cell (target w) := by
        intro w hw
        obtain ⟨hmem, heq⟩ := List.mem_filter.mp hw
        rcases honce w (hperm.subset (List.mem_append_left _ hmem)) with ⟨hne, -⟩ | hn
        · exact absurd (of_decide_eq_true heq).symm hne
        · exact hn _
      have hkept : ∀ w ∈ kept, cell op ≠ target w := by
        intro w hw heq
        exact of_decide_eq_true (List.mem_filter.mp hw).2 heq.symm
      have hcall : alone exec (.call op next) (kept.foldl apply s) =
          alone exec (next (exec op s).2) (kept.foldl apply (exec op s).1) := by
        rw [alone, hind.exec_foldl hkept]
      have hrest : alone exec (next (exec op s).2) (before.foldl apply (exec op s).1) =
          (moved.foldl apply (alone exec (.call op next) (kept.foldl apply s)).1,
            (alone exec (.call op next) (kept.foldl apply s)).2) := by
        rw [hind.foldl_filter (cell op) before, hind.alone_foldl hmoved, hcall]
      refine ⟨kept, moved ++ after, ?_, ?_, ?_⟩
      · rw [← List.append_assoc]
        refine (List.Perm.append_right after ?_).trans hperm
        have hsplit := List.filter_append_perm (fun w => decide (target w = cell op)) before
        refine List.perm_append_comm.trans ?_
        simpa only [moved, kept, decide_not] using hsplit
      · rw [hs, hrest, List.foldl_append]
      · rw [ha, hrest]

end Atomic

end Threads
