import Mathlib.Data.List.Basic
import Mathlib.Logic.Function.Basic

/-!
# Threads that call a shared store

A thread is a program: it returns, spends a turn on something of its own, or
calls the store and goes on with the answer. Every call is atomic, whatever lies
between two of them is not. A pool is a store and its threads, and a schedule
says whose turn it is.

Of every schedule it is proved here that threads which keep to their own part of
the store cannot tell whether the others are there (`run_filter`): leave out all
turns of the others, and each thread of the group has been answered the same.
-/

namespace Threads

/-- A program over the operations `Op`. -/
inductive Prog (Op : Type) (Ret : Op → Type) (α : Type)
  | ret (a : α)
  | pause (next : Prog Op Ret α)
  | call (op : Op) (next : Ret op → Prog Op Ret α)

namespace Prog

variable {Op : Type} {Ret : Op → Type} {α β γ : Type}

def bind : Prog Op Ret α → (α → Prog Op Ret β) → Prog Op Ret β
  | ret a, f => f a
  | pause next, f => pause (next.bind f)
  | call op next, f => call op fun r => (next r).bind f

instance : Monad (Prog Op Ret) where
  pure := ret
  bind := bind

def perform (op : Op) : Prog Op Ret (Ret op) := call op ret

@[simp] theorem pure_def (a : α) : (pure a : Prog Op Ret α) = ret a := rfl

@[simp] theorem bind_def (p : Prog Op Ret α) (f : α → Prog Op Ret β) :
    p >>= f = p.bind f := rfl

theorem bind_ret (p : Prog Op Ret α) : p.bind ret = p := by
  induction p with
  | ret a => rfl
  | pause next ih => rw [bind, ih]
  | call op next ih => rw [bind, funext ih]

theorem bind_assoc (p : Prog Op Ret α) (f : α → Prog Op Ret β) (g : β → Prog Op Ret γ) :
    (p.bind f).bind g = p.bind fun a => (f a).bind g := by
  induction p with
  | ret a => rfl
  | pause next ih => simp only [bind, ih]
  | call op next ih => simp only [bind, ih]

instance : LawfulMonad (Prog Op Ret) :=
  LawfulMonad.mk' _ bind_ret (fun _ _ => rfl) bind_assoc

/-- All the operations the program can come to call, whatever it is answered. -/
def Calls (P : Op → Prop) : Prog Op Ret α → Prop
  | ret _ => True
  | pause next => next.Calls P
  | call op next => P op ∧ ∀ r, (next r).Calls P

variable {P : Op → Prop}

theorem Calls.bind {p : Prog Op Ret α} {f : α → Prog Op Ret β} (hp : p.Calls P)
    (hf : ∀ a, (f a).Calls P) : (p.bind f).Calls P := by
  induction p with
  | ret a => exact hf a
  | pause next ih => exact ih hp
  | call op next ih => exact ⟨hp.1, fun r => ih r (hp.2 r)⟩

theorem Calls.perform {op : Op} (h : P op) : (perform op : Prog Op Ret _).Calls P :=
  ⟨h, fun _ => trivial⟩

theorem Calls.ite {c : Prop} [Decidable c] {p q : Prog Op Ret α} (hp : p.Calls P)
    (hq : q.Calls P) : (if c then p else q).Calls P := by
  split
  · exact hp
  · exact hq

theorem Calls.mono {Q : Op → Prop} (hPQ : ∀ op, P op → Q op) {p : Prog Op Ret α}
    (hp : p.Calls P) : p.Calls Q := by
  induction p with
  | ret a => trivial
  | pause next ih => exact ih hp
  | call op next ih => exact ⟨hPQ op hp.1, fun r => ih r (hp.2 r)⟩

theorem Calls.mapM {f : γ → Prog Op Ret α} (xs : List γ)
    (h : ∀ x ∈ xs, (f x).Calls P) : (xs.mapM f).Calls P := by
  induction xs with
  | nil => trivial
  | cons x xs ih =>
      rw [List.mapM_cons]
      refine (h x List.mem_cons_self).bind fun a => ?_
      exact (ih fun y hy => h y (List.mem_cons_of_mem x hy)).bind fun _ => trivial

theorem Calls.forM {f : γ → Prog Op Ret PUnit} (xs : List γ)
    (h : ∀ x ∈ xs, (f x).Calls P) : (forM xs f : Prog Op Ret PUnit).Calls P := by
  induction xs with
  | nil => trivial
  | cons x xs ih =>
      rw [List.forM_cons]
      exact (h x List.mem_cons_self).bind fun _ =>
        ih fun y hy => h y (List.mem_cons_of_mem x hy)

end Prog

/-! ## A program by itself -/

section Alone

variable {σ Op α β γ : Type} {Ret : Op → Type} (exec : (op : Op) → σ → σ × Ret op)

/-- What a program does with nobody around. -/
def alone : Prog Op Ret α → σ → σ × α
  | .ret a, s => (s, a)
  | .pause next, s => alone next s
  | .call op next, s => alone (next (exec op s).2) (exec op s).1

@[simp] theorem alone_ret (a : α) (s : σ) :
    alone exec (.ret a : Prog Op Ret α) s = (s, a) := rfl

@[simp] theorem alone_perform (op : Op) (s : σ) :
    alone exec (Prog.perform op : Prog Op Ret _) s = exec op s := rfl

@[simp] theorem alone_bind (p : Prog Op Ret α) (f : α → Prog Op Ret β) (s : σ) :
    alone exec (p.bind f) s = alone exec (f (alone exec p s).2) (alone exec p s).1 := by
  induction p generalizing s with
  | ret a => rfl
  | pause next ih => exact ih s
  | call op next ih => exact ih _ _

theorem alone_ite (c : Prop) [Decidable c] (p q : Prog Op Ret α) (s : σ) :
    alone exec (if c then p else q) s = if c then alone exec p s else alone exec q s := by
  split <;> rfl

theorem alone_inv {I : σ → Prop} (hkeep : ∀ op s, I s → I (exec op s).1) (p : Prog Op Ret α)
    {s : σ} (hs : I s) : I (alone exec p s).1 := by
  induction p generalizing s with
  | ret a => exact hs
  | pause next ih => exact ih hs
  | call op next ih => exact ih _ (hkeep op s hs)

theorem alone_mapM {f : γ → Prog Op Ret α} {g : γ → α} {s : σ} (xs : List γ)
    (h : ∀ x ∈ xs, alone exec (f x) s = (s, g x)) :
    alone exec (xs.mapM f) s = (s, xs.map g) := by
  induction xs with
  | nil => rfl
  | cons x xs ih =>
      rw [List.mapM_cons, Prog.bind_def, alone_bind, h x List.mem_cons_self, Prog.bind_def,
        alone_bind, ih fun y hy => h y (List.mem_cons_of_mem x hy)]
      rfl

theorem alone_forM {f : γ → Prog Op Ret PUnit} {g : σ → γ → σ} (xs : List γ)
    (h : ∀ x ∈ xs, ∀ s, (alone exec (f x) s).1 = g s x) (s : σ) :
    alone exec (forM xs f : Prog Op Ret PUnit) s = (xs.foldl g s, ⟨⟩) := by
  induction xs generalizing s with
  | nil => rfl
  | cons x xs ih =>
      rw [List.forM_cons, Prog.bind_def, alone_bind, h x List.mem_cons_self,
        ih fun y hy => h y (List.mem_cons_of_mem x hy)]
      rfl

theorem alone_foldlM {f : α → γ → Prog Op Ret α} {g : α → γ → α} {s : σ} (xs : List γ)
    (h : ∀ a, ∀ x ∈ xs, alone exec (f a x) s = (s, g a x)) (a : α) :
    alone exec (xs.foldlM f a) s = (s, xs.foldl g a) := by
  induction xs generalizing a with
  | nil => rfl
  | cons x xs ih =>
      rw [List.foldlM_cons, Prog.bind_def, alone_bind, h a x List.mem_cons_self]
      exact ih (fun b y hy => h b y (List.mem_cons_of_mem x hy)) _

end Alone

/-! ## What a program leaves behind -/

section Trail

variable {σ Op α δ τ : Type} {Ret : Op → Type} (exec : (op : Op) → σ → σ × Ret op)
  (note : Op → σ → List δ)

/-- The notes on the calls of a program with nobody around, in their order. -/
def trail : Prog Op Ret α → σ → List δ
  | .ret _, _ => []
  | .pause next, s => trail next s
  | .call op next, s => note op s ++ trail (next (exec op s).2) (exec op s).1

/-- Where a view of the store shows of every call what was noted on it, it shows of
a program its trail. -/
theorem view_alone {V : σ → τ} {f : τ → δ → τ}
    (h : ∀ op s, V (exec op s).1 = (note op s).foldl f (V s)) (p : Prog Op Ret α) (s : σ) :
    V (alone exec p s).1 = (trail exec note p s).foldl f (V s) := by
  induction p generalizing s with
  | ret a => rfl
  | pause next ih => exact ih s
  | call op next ih => rw [alone, ih, h, trail, List.foldl_append]

end Trail

/-! ## A pool of threads -/

section Pool

variable {ι σ Op α : Type} {Ret : Op → Type} [DecidableEq ι]

/-- The store, and what each thread still has to do. -/
structure Pool (ι σ Op : Type) (Ret : Op → Type) (α : Type) where
  store : σ
  threads : ι → Prog Op Ret α

variable (exec : (op : Op) → σ → σ × Ret op)

/-- One turn of a thread. -/
def advance : Prog Op Ret α → σ → σ × Prog Op Ret α
  | .ret a, s => (s, .ret a)
  | .pause next, s => (s, next)
  | .call op next, s => ((exec op s).1, next (exec op s).2)

def turn (p : Pool ι σ Op Ret α) (i : ι) : Pool ι σ Op Ret α :=
  let r := advance exec (p.threads i) p.store
  ⟨r.1, Function.update p.threads i r.2⟩

def run (p : Pool ι σ Op Ret α) (schedule : List ι) : Pool ι σ Op Ret α :=
  schedule.foldl (turn exec) p

theorem run_cons (p : Pool ι σ Op Ret α) (i : ι) (is : List ι) :
    run exec p (i :: is) = run exec (turn exec p i) is := rfl

/-- A turn of a program that makes allowed calls, by what the calls do: nothing
has happened, or one of them has. -/
theorem advance_cases {P : Op → Prop} {p : Prog Op Ret α} (hp : p.Calls P) (s : σ) :
    (advance exec p s).2.Calls P ∧
      ((advance exec p s).1 = s ∨ ∃ op, P op ∧ (advance exec p s).1 = (exec op s).1) := by
  cases p with
  | ret a => exact ⟨hp, .inl rfl⟩
  | pause next => exact ⟨hp, .inl rfl⟩
  | call op next => exact ⟨hp.2 _, .inr ⟨op, hp.1, rfl⟩⟩

/-! ### Threads that keep to themselves -/

variable {exec} {Agree : σ → σ → Prop} {Own Other : Op → Prop}

/-- Where two stores agree, calls of the group have one answer and keep them in
agreement; calls of the others do not show. -/
structure Secludes (exec : (op : Op) → σ → σ × Ret op) (Agree : σ → σ → Prop)
    (Own Other : Op → Prop) : Prop where
  answer : ∀ {op s s'}, Own op → Agree s s' → (exec op s).2 = (exec op s').2
  store : ∀ {op s s'}, Own op → Agree s s' → Agree (exec op s).1 (exec op s').1
  other : ∀ {op s s'}, Other op → Agree s s' → Agree (exec op s).1 s'

theorem Secludes.advance_own (h : Secludes exec Agree Own Other) {p : Prog Op Ret α}
    (hp : p.Calls Own) {s s' : σ} (hs : Agree s s') :
    (advance exec p s).2 = (advance exec p s').2 ∧
      Agree (advance exec p s).1 (advance exec p s').1 := by
  cases p with
  | ret a => exact ⟨rfl, hs⟩
  | pause next => exact ⟨rfl, hs⟩
  | call op next => exact ⟨congrArg next (h.answer hp.1 hs), h.store hp.1 hs⟩

theorem Secludes.advance_other (h : Secludes exec Agree Own Other) {p : Prog Op Ret α}
    (hp : p.Calls Other) {s s' : σ} (hs : Agree s s') :
    Agree (advance exec p s).1 s' := by
  obtain ⟨-, heq | ⟨op, hop, heq⟩⟩ := advance_cases exec hp s
  · rw [heq]
    exact hs
  · rw [heq]
    exact h.other hop hs

/-- Leaving out the turns of everyone outside the group changes nothing for the
group. -/
theorem run_filter (h : Secludes exec Agree Own Other) (G : ι → Bool)
    {p p' : Pool ι σ Op Ret α} (hstore : Agree p.store p'.store)
    (hthreads : ∀ i, G i = true → p.threads i = p'.threads i)
    (hown : ∀ i, G i = true → (p.threads i).Calls Own)
    (hother : ∀ i, G i = false → (p.threads i).Calls Other) (schedule : List ι) :
    Agree (run exec p schedule).store (run exec p' (schedule.filter G)).store ∧
      ∀ i, G i = true →
        (run exec p schedule).threads i = (run exec p' (schedule.filter G)).threads i := by
  induction schedule generalizing p p' with
  | nil => exact ⟨hstore, hthreads⟩
  | cons j is ih =>
      -- the other threads are where they were, in either pool
      have hcalls {P : Op → Prop} {i : ι} (hi : (p.threads i).Calls P) :
          ((turn exec p j).threads i).Calls P := by
        by_cases hij : i = j
        · subst hij
          simpa only [turn, Function.update_self] using (advance_cases exec hi p.store).1
        · simpa only [turn, Function.update_of_ne hij] using hi
      cases hj : G j with
      | true =>
          rw [List.filter_cons_of_pos hj, run_cons, run_cons]
          obtain ⟨hprog, hagree⟩ := h.advance_own (hown j hj) hstore
          refine ih ?_ ?_ (fun i hi => hcalls (hown i hi)) fun i hi => hcalls (hother i hi)
          · simpa only [turn, ← hthreads j hj] using hagree
          · intro i hi
            by_cases hij : i = j
            · subst hij
              simpa only [turn, Function.update_self, ← hthreads i hi] using hprog
            · simpa only [turn, Function.update_of_ne hij] using hthreads i hi
      | false =>
          rw [List.filter_cons_of_neg (by simp [hj]), run_cons]
          refine ih ?_ ?_ (fun i hi => hcalls (hown i hi)) fun i hi => hcalls (hother i hi)
          · exact h.advance_other (hother j hj) hstore
          · intro i hi
            have hij : i ≠ j := by
              rintro rfl
              rw [hj] at hi
              cases hi
            simpa only [turn, Function.update_of_ne hij] using hthreads i hi

end Pool

end Threads
