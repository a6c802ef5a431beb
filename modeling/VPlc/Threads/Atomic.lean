import VPlc.Threads.Program

/-!
# Operations made of smaller ones

Each operation of a layer is implemented by a program over the layer below, its
`body`. If a body makes at most one call that counts, then the layer is as good
as one whose operations are atomic (`run_inline`): a schedule of the small turns
has a sublist which, taken as turns of the large operations, leaves the same
store and the same results. That it is a sublist is the point of it. Every
operation takes effect in one of its own turns, so the order in which those of
different threads appear is one that an observer of their beginnings and ends
could have seen.

The calls that do not count are those whose answer no thread can influence, such
as the size of an array that never grows; `I` is the invariant that says what
never changes. `Follows` carries the proof: a thread in the middle of a body has
either not come to the call that counts, and its operation is still to be taken,
or is past it, and what the body goes on to return is settled.
-/

namespace Threads

variable {ι σ Op Op' α ρ : Type} {Ret : Op → Type} {Ret' : Op' → Type}

/-- The program with every operation replaced by its body. A turn goes by before
a body starts: the thread has to be told what to do. -/
def Prog.inline (body : (op : Op') → Prog Op Ret (Ret' op)) :
    Prog Op' Ret' α → Prog Op Ret α
  | .ret a => .ret a
  | .pause next => .pause (next.inline body)
  | .call op next => .pause ((body op).bind fun r => (next r).inline body)

section Body

variable (exec : (op : Op) → σ → σ × Ret op) (I : σ → Prop)

/-- The call changes nothing and is always answered the same. -/
def Idle (op : Op) (r : Ret op) : Prop := ∀ s, I s → exec op s = (s, r)

/-- All that is left are idle calls, and `a` is what they lead to. -/
inductive Settled : Prog Op Ret ρ → ρ → Prop
  | ret (a : ρ) : Settled (.ret a) a
  | pause {p : Prog Op Ret ρ} {a : ρ} (h : Settled p a) : Settled (.pause p) a
  | call {op : Op} {next : Ret op → Prog Op Ret ρ} {r : Ret op} {a : ρ}
      (hr : Idle exec I op r) (h : Settled (next r) a) : Settled (.call op next) a

/-- There is one call ahead that counts, and nothing but idle ones around it. -/
inductive Ahead : Prog Op Ret ρ → Prop
  | pause {p : Prog Op Ret ρ} (h : Ahead p) : Ahead (.pause p)
  | idle {op : Op} {next : Ret op → Prog Op Ret ρ} {r : Ret op}
      (hr : Idle exec I op r) (h : Ahead (next r)) : Ahead (.call op next)
  | call {op : Op} {next : Ret op → Prog Op Ret ρ}
      (h : ∀ r, ∃ a, Settled exec I (next r) a) : Ahead (.call op next)

/-- At most one call counts. -/
def Atomic (p : Prog Op Ret ρ) : Prop := (∃ a, Settled exec I p a) ∨ Ahead exec I p

end Body

variable {exec : (op : Op) → σ → σ × Ret op} {I : σ → Prop}

theorem Settled.alone {p : Prog Op Ret ρ} {a : ρ} (h : Settled exec I p a) {s : σ}
    (hs : I s) : alone exec p s = (s, a) := by
  induction h with
  | ret a => rfl
  | pause _ ih => exact ih
  | call hr _ ih => rw [Threads.alone, hr s hs]; exact ih

theorem Idle.settled {op : Op} {r : Ret op} (hr : Idle exec I op r) :
    Settled exec I (.perform op) r := .call hr (.ret r)

/-! ## Programs with at most one call that counts -/

section Compose

variable {δ : Type} {p : Prog Op Ret ρ} {f : ρ → Prog Op Ret δ} {a : ρ} {b : δ}

theorem Settled.bind (hp : Settled exec I p a) (hf : Settled exec I (f a) b) :
    Settled exec I (p.bind f) b := by
  induction hp with
  | ret a => exact hf
  | pause _ ih => exact .pause (ih hf)
  | call hr _ ih => exact .call hr (ih hf)

theorem Settled.bind_ahead (hp : Settled exec I p a) (hf : Ahead exec I (f a)) :
    Ahead exec I (p.bind f) := by
  induction hp with
  | ret a => exact hf
  | pause _ ih => exact .pause (ih hf)
  | call hr _ ih => exact .idle hr (ih hf)

theorem Settled.bind_atomic (hp : Settled exec I p a) (hf : Atomic exec I (f a)) :
    Atomic exec I (p.bind f) :=
  hf.imp (fun ⟨b, hb⟩ => ⟨b, hp.bind hb⟩) hp.bind_ahead

theorem Ahead.map (hp : Ahead exec I p) (g : ρ → δ) :
    Ahead exec I (p.bind fun a => .ret (g a)) := by
  induction hp with
  | pause _ ih => exact .pause ih
  | idle hr _ ih => exact .idle hr ih
  | call h =>
      refine .call fun r => ?_
      obtain ⟨a, ha⟩ := h r
      exact ⟨g a, ha.bind (.ret (g a))⟩

theorem Atomic.map (hp : Atomic exec I p) (g : ρ → δ) :
    Atomic exec I (p.bind fun a => .ret (g a)) :=
  hp.imp (fun ⟨a, ha⟩ => ⟨g a, ha.bind (.ret (g a))⟩) fun h => h.map g

theorem Atomic.ret (a : ρ) : Atomic exec I (.ret a : Prog Op Ret ρ) := .inl ⟨a, .ret a⟩

theorem Atomic.perform (op : Op) : Atomic exec I (.perform op) :=
  .inr (.call fun r => ⟨r, .ret r⟩)

theorem Atomic.ite {c : Prop} [Decidable c] {q : Prog Op Ret ρ} (hp : c → Atomic exec I p)
    (hq : ¬ c → Atomic exec I q) : Atomic exec I (if c then p else q) := by
  split
  · exact hp ‹c›
  · exact hq ‹¬ c›

theorem Atomic.mapM {n : Nat} (h : n ≤ 1) {c : Nat → Prog Op Ret ρ}
    (hc : ∀ i, Atomic exec I (c i)) : Atomic exec I ((List.range n).mapM c) := by
  obtain rfl | rfl : n = 0 ∨ n = 1 := by omega
  · exact .ret []
  · exact (hc 0).map fun x => [x]

theorem Atomic.forM {n : Nat} (h : n ≤ 1) {c : Nat → Prog Op Ret PUnit}
    (hc : ∀ i, Atomic exec I (c i)) :
    Atomic exec I (ForM.forM (List.range n) c : Prog Op Ret PUnit) := by
  obtain rfl | rfl : n = 0 ∨ n = 1 := by omega
  · exact .ret PUnit.unit
  · exact (hc 0).map fun _ => PUnit.unit

end Compose

/-! ## Who is in the middle of a body -/

variable (exec I) in
/-- The thread `q` below does what the thread `p` above does: they are between
two operations, the next one has begun and its call is still ahead, or the call
has been made and the rest of the body is settled. -/
inductive Follows (body : (op : Op') → Prog Op Ret (Ret' op)) :
    Prog Op Ret α → Prog Op' Ret' α → Prop
  | between (p : Prog Op' Ret' α) : Follows body (p.inline body) p
  | before {op : Op'} {next : Ret' op → Prog Op' Ret' α} {t : Prog Op Ret (Ret' op)}
      (hsame : ∀ s, I s → alone exec t s = alone exec (body op) s)
      (ht : Ahead exec I t) :
      Follows body (t.bind fun r => (next r).inline body) (.call op next)
  | after {op : Op'} {next : Ret' op → Prog Op' Ret' α} {t : Prog Op Ret (Ret' op)}
      {r : Ret' op} (ht : Settled exec I t r) :
      Follows body (t.bind fun r => (next r).inline body) (next r)

variable {body : (op : Op') → Prog Op Ret (Ret' op)}

/-- The operation, done in one turn. -/
def whole (exec : (op : Op) → σ → σ × Ret op) (body : (op : Op') → Prog Op Ret (Ret' op))
    (op : Op') (s : σ) : σ × Ret' op := alone exec (body op) s

/-- A turn below is a turn above, or none. -/
def Matches (exec : (op : Op) → σ → σ × Ret op) (I : σ → Prop)
    (body : (op : Op') → Prog Op Ret (Ret' op)) (q : Prog Op Ret α)
    (p : Prog Op' Ret' α) (s : σ) : Prop :=
  ((advance exec q s).1 = s ∧ Follows exec I body (advance exec q s).2 p) ∨
    ((advance exec q s).1 = (advance (whole exec body) p s).1 ∧
      Follows exec I body (advance exec q s).2 (advance (whole exec body) p s).2)

theorem matches_between (hbody : ∀ op, Atomic exec I (body op)) (p : Prog Op' Ret' α)
    {s : σ} (hs : I s) : Matches exec I body (p.inline body) p s := by
  cases p with
  | ret a => exact .inl ⟨rfl, .between (.ret a)⟩
  | pause next => exact .inr ⟨rfl, .between next⟩
  | call op next =>
      rcases hbody op with ⟨r, hr⟩ | hahead
      · -- nothing in the body counts, so the operation is taken as it begins
        have halone : whole exec body op s = (s, r) := hr.alone hs
        right
        simp only [advance, Prog.inline, halone]
        exact ⟨trivial, .after hr⟩
      · exact .inl ⟨rfl, .before (fun _ _ => rfl) hahead⟩

theorem matches_before {op : Op'} {next : Ret' op → Prog Op' Ret' α}
    {t : Prog Op Ret (Ret' op)} (hkeep : ∀ op s, I s → I (exec op s).1)
    (hsame : ∀ s, I s → alone exec t s = alone exec (body op) s)
    (ht : Ahead exec I t) {s : σ} (hs : I s) :
    Matches exec I body (t.bind fun r => (next r).inline body) (.call op next) s := by
  cases ht with
  | pause h => exact .inl ⟨rfl, .before hsame h⟩
  | @idle op₀ next₀ r hr h =>
      left
      simp only [Prog.bind, advance, hr s hs]
      refine ⟨trivial, .before (fun s' hs' => ?_) h⟩
      rw [← hsame s' hs', alone, hr s' hs']
  | @call op₀ next₀ h =>
      obtain ⟨a, ha⟩ := h (exec op₀ s).2
      have halone : whole exec body op s = ((exec op₀ s).1, a) :=
        (hsame s hs).symm.trans (ha.alone (hkeep op₀ s hs))
      right
      simp only [Prog.bind, advance, halone]
      exact ⟨trivial, .after ha⟩

theorem matches_after (hbody : ∀ op, Atomic exec I (body op)) {op : Op'}
    {next : Ret' op → Prog Op' Ret' α} {t : Prog Op Ret (Ret' op)} {r : Ret' op}
    (ht : Settled exec I t r) {s : σ} (hs : I s) :
    Matches exec I body (t.bind fun r => (next r).inline body) (next r) s := by
  cases ht with
  | ret => exact matches_between hbody (next r) hs
  | pause h => exact .inl ⟨rfl, .after h⟩
  | call hr h =>
      left
      simp only [Prog.bind, advance, hr s hs]
      exact ⟨trivial, .after h⟩

theorem Follows.matches (hkeep : ∀ op s, I s → I (exec op s).1)
    (hbody : ∀ op, Atomic exec I (body op)) {q : Prog Op Ret α} {p : Prog Op' Ret' α}
    (h : Follows exec I body q p) {s : σ} (hs : I s) : Matches exec I body q p s := by
  cases h with
  | between p => exact matches_between hbody p hs
  | before hsame ht => exact matches_before hkeep hsame ht hs
  | after ht => exact matches_after hbody ht hs

theorem Follows.ret {a : α} {p : Prog Op' Ret' α}
    (h : Follows exec I body (.ret a) p) : p = .ret a := by
  generalize hq : (.ret a : Prog Op Ret α) = q at h
  have hbetween : ∀ p' : Prog Op' Ret' α, .ret a = p'.inline body → p' = .ret a := by
    intro p' heq
    cases p' with
    | ret b => cases heq; rfl
    | pause next => cases heq
    | call op next => cases heq
  cases h with
  | between p => exact hbetween p hq
  | before hsame ht => cases ht <;> cases hq
  | after ht =>
      cases ht with
      | ret => exact hbetween _ hq
      | pause h => cases hq
      | call hr h => cases hq

section Run

variable [DecidableEq ι]

theorem keep_advance (hkeep : ∀ op s, I s → I (exec op s).1) (p : Prog Op Ret α) {s : σ}
    (hs : I s) : I (advance exec p s).1 := by
  cases p with
  | ret a => exact hs
  | pause next => exact hs
  | call op next => exact hkeep op s hs

theorem run_follows (hkeep : ∀ op s, I s → I (exec op s).1)
    (hbody : ∀ op, Atomic exec I (body op)) {q : Pool ι σ Op Ret α}
    {p : Pool ι σ Op' Ret' α} (hstore : q.store = p.store) (hI : I q.store)
    (hfollows : ∀ i, Follows exec I body (q.threads i) (p.threads i))
    (schedule : List ι) :
    ∃ serial : List ι, serial.Sublist schedule ∧
      (run exec q schedule).store = (run (whole exec body) p serial).store ∧
      ∀ i, Follows exec I body ((run exec q schedule).threads i)
        ((run (whole exec body) p serial).threads i) := by
  induction schedule generalizing q p with
  | nil => exact ⟨[], List.Sublist.refl [], hstore, hfollows⟩
  | cons i is ih =>
      have hI' : I (turn exec q i).store := keep_advance hkeep _ hI
      rcases (hfollows i).matches hkeep hbody hI with ⟨hs, hf⟩ | ⟨hs, hf⟩
      · obtain ⟨serial, hsub, hrun⟩ := ih (q := turn exec q i) (p := p) (hs.trans hstore) hI'
          fun j => by
            by_cases hj : j = i
            · subst hj
              simpa only [turn, Function.update_self] using hf
            · simpa only [turn, Function.update_of_ne hj] using hfollows j
        exact ⟨serial, hsub.cons i, hrun⟩
      · rw [hstore] at hs hf
        obtain ⟨serial, hsub, hrun⟩ := ih (q := turn exec q i)
          (p := turn (whole exec body) p i) (by rw [turn, hstore]; exact hs) hI'
          fun j => by
            by_cases hj : j = i
            · subst hj
              simpa only [turn, hstore, Function.update_self] using hf
            · simpa only [turn, Function.update_of_ne hj] using hfollows j
        exact ⟨i :: serial, hsub.cons_cons i, hrun⟩

/-- Whatever the order of the small turns, the operations have been carried out
one at a time, each in a turn of its own thread. -/
theorem run_inline (hkeep : ∀ op s, I s → I (exec op s).1)
    (hbody : ∀ op, Atomic exec I (body op)) {s : σ} (hs : I s)
    (threads : ι → Prog Op' Ret' α) (schedule : List ι) :
    ∃ serial : List ι, serial.Sublist schedule ∧
      (run exec ⟨s, fun i => (threads i).inline body⟩ schedule).store =
        (run (whole exec body) ⟨s, threads⟩ serial).store ∧
      ∀ i a, (run exec ⟨s, fun i => (threads i).inline body⟩ schedule).threads i = .ret a →
        (run (whole exec body) ⟨s, threads⟩ serial).threads i = .ret a := by
  obtain ⟨serial, hsub, hstore, hfollows⟩ := run_follows hkeep hbody
    (q := ⟨s, fun i => (threads i).inline body⟩) (p := ⟨s, threads⟩) rfl hs
    (fun i => .between (threads i)) schedule
  refine ⟨serial, hsub, hstore, fun i a hret => ?_⟩
  have hf := hfollows i
  rw [hret] at hf
  exact hf.ret

end Run

end Threads
