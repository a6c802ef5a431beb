import VPlc.Mirror.Star

/-!
# A star as one register

The cells of a star are copies of one value, and two passes make them agree again
after one of them was written. So a client that writes to any of them writes a
register, as long as nobody writes to a second cell before the passes have been.
`Register` is that: a value, and the cell that has it and from which it has not
been copied yet. `Shows` says that a store is such a register at the star around
`c`. A write, and two passes, keep it so (`Shows.write`, `Shows.passes`), and with
nothing pending every cell of the star reads the value (`Shows.read`).
-/

namespace Mirror

variable {κ α : Type*}

/-- The cells of the star around `c`. -/
def Around (ls : List (Link κ α)) (c k : κ) : Prop :=
  k = c ∨ ∃ l ∈ ls, l.src = c ∧ l.dst = k

theorem around_ends {ls ms : List (Link κ α)} (h : ms.map Link.ends = ls.map Link.ends)
    (c k : κ) : Around ms c k ↔ Around ls c k := by
  have hmem (xs : List (Link κ α)) :
      (∃ l ∈ xs, l.src = c ∧ l.dst = k) ↔ (c, k) ∈ xs.map Link.ends := by
    rw [List.mem_map]
    exact exists_congr fun l => and_congr_right fun _ => (Prod.mk.injEq _ _ _ _).symm.to_iff
  rw [Around, Around, hmem, hmem, h]

structure Register (κ α : Type*) where
  value : α
  /-- The cell that was written and that the links have not seen yet. -/
  pending : Option κ

namespace Register

variable [DecidableEq κ] (g : Register κ α)

/-- A write to one of its cells, unless another one is pending. -/
def write (k : κ) (v : α) : Option (Register κ α) :=
  if g.pending = none ∨ g.pending = some k then some ⟨v, some k⟩ else none

/-- A write to any cell, where the register's own are those with `P`. -/
def hear (P : κ → Prop) [DecidablePred P] (g : Register κ α) (w : κ × α) :
    Option (Register κ α) :=
  if P w.1 then g.write w.1 w.2 else some g

/-- The passes have been. -/
def settle : Register κ α := ⟨g.value, none⟩

end Register

section Put

variable [DecidableEq κ]

def put (s : κ → α) (ws : List (κ × α)) : κ → α :=
  ws.foldl (fun s w => Function.update s w.1 w.2) s

theorem put_cons (s : κ → α) (w : κ × α) (ws : List (κ × α)) :
    put s (w :: ws) = put (Function.update s w.1 w.2) ws := rfl

end Put

/-- At the star around `c` the store is the register `g`: its links have last seen
`old`, which is what its cells hold, but for the pending one. -/
structure Shows (s : κ → α) (ls : List (Link κ α)) (c : κ) (g : Register κ α) (old : α) :
    Prop where
  seen : ∀ l ∈ ls, l.src = c → l.live = true ∧ l.lastSrc = old ∧ l.lastDst = old
  others : ∀ k, Around ls c k → g.pending ≠ some k → s k = old
  settled : g.pending = none → g.value = old
  pending : ∀ k, g.pending = some k → Around ls c k ∧ s k = g.value

namespace Shows

variable {s : κ → α} {ls : List (Link κ α)} {c : κ} {g : Register κ α} {old : α}

theorem read (h : Shows s ls c g old) (hpending : g.pending = none) {k : κ}
    (hk : Around ls c k) : s k = g.value := by
  rw [h.settled hpending]
  refine h.others k hk ?_
  rw [hpending]
  exact Option.some_ne_none k ∘ Eq.symm

/-- Every cell has what the links have seen or the value, and one has the value. -/
theorem two (h : Shows s ls c g old) :
    (∀ k, Around ls c k → s k = old ∨ s k = g.value) ∧
      (g.value = old ∨ ∃ k, Around ls c k ∧ s k = g.value) := by
  refine ⟨fun k hk => ?_, ?_⟩
  · by_cases hpending : g.pending = some k
    · exact .inr (h.pending k hpending).2
    · exact .inl (h.others k hk hpending)
  · cases hpending : g.pending with
    | none => exact .inl (h.settled hpending)
    | some k => exact .inr ⟨k, h.pending k hpending⟩

theorem of_settled (h : ∀ l ∈ ls, l.src = c → l.Settled s) :
    Shows s ls c ⟨s c, none⟩ (s c) where
  seen l hl hsrc := by
    obtain ⟨hlive, hls, hld, heq⟩ := h l hl hsrc
    rw [hsrc] at hls heq
    exact ⟨hlive, hls, hld.trans heq.symm⟩
  others k hk _ := by
    rcases hk with rfl | ⟨l, hl, hsrc, rfl⟩
    · rfl
    · rw [← (h l hl hsrc).2.2.2, hsrc]
  settled _ := rfl
  pending _ hk := absurd hk.symm (Option.some_ne_none _)

variable [DecidableEq κ]

theorem write (h : Shows s ls c g old) {g' : Register κ α} {k : κ} {v : α}
    (hk : Around ls c k) (hwrite : g.write k v = some g') :
    Shows (Function.update s k v) ls c g' old := by
  unfold Register.write at hwrite
  split at hwrite
  · next hfree =>
      obtain rfl := Option.some.inj hwrite
      refine ⟨h.seen, fun j hj hne => ?_, fun hnone => absurd hnone (Option.some_ne_none k),
        fun j hj => ?_⟩
      · have hjk : j ≠ k := fun heq => hne (congrArg some heq.symm)
        rw [Function.update_of_ne hjk]
        refine h.others j hj fun hpending => ?_
        rcases hfree with hnone | hsome
        · rw [hnone] at hpending
          cases hpending
        · rw [hsome] at hpending
          exact hne hpending
      · obtain rfl := Option.some.inj hj
        exact ⟨hk, Function.update_self _ _ _⟩
  · cases hwrite

theorem frame (h : Shows s ls c g old) {k : κ} (hk : ¬ Around ls c k) (v : α) :
    Shows (Function.update s k v) ls c g old := by
  have hsame (j : κ) (hj : Around ls c j) : Function.update s k v j = s j :=
    Function.update_of_ne (fun heq => hk (by rwa [← heq])) _ _
  refine ⟨h.seen, fun j hj hne => ?_, h.settled, fun j hj => ?_⟩
  · rw [hsame j hj]
    exact h.others j hj hne
  · obtain ⟨haround, hvalue⟩ := h.pending j hj
    exact ⟨haround, (hsame j haround).trans hvalue⟩

theorem put (h : Shows s ls c g old) {P : κ → Prop} [DecidablePred P]
    (hown : ∀ k, P k ↔ Around ls c k) {ws : List (κ × α)} {g' : Register κ α}
    (hhear : ws.foldlM (Register.hear P) g = some g') :
    Shows (Mirror.put s ws) ls c g' old := by
  induction ws generalizing s g with
  | nil =>
      obtain rfl := Option.some.inj hhear
      exact h
  | cons w ws ih =>
      rw [List.foldlM_cons] at hhear
      obtain ⟨g₁, hfirst, hrest⟩ := Option.bind_eq_some_iff.mp hhear
      rw [put_cons]
      refine ih ?_ hrest
      unfold Register.hear at hfirst
      split at hfirst
      · next hk => exact h.write ((hown w.1).mp hk) hfirst
      · next hk =>
          obtain rfl := Option.some.inj hfirst
          exact h.frame (fun hin => hk ((hown w.1).mpr hin)) w.2

variable [DecidableEq α]

/-- Where the cells of a star hold one of two values, a pass decides for the one
its links have not seen, if there is one. -/
theorem arbitrate_eq {w : α} (htwo : ∀ k, Around ls c k → s k = old ∨ s k = w)
    (hone : w = old ∨ ∃ k, Around ls c k ∧ s k = w) : Star.arbitrate s old c ls = w := by
  unfold Star.arbitrate
  split
  · next hsrc => exact (htwo c (.inl rfl)).resolve_left hsrc
  · next hsrc =>
      have hsrc := not_not.mp hsrc
      cases hfirst : Star.firstChanged s old c ls with
      | some x =>
          have hx := List.find?_some hfirst
          obtain ⟨l, hl, rfl⟩ := List.mem_map.mp (List.mem_of_find?_eq_some hfirst)
          obtain ⟨hl, hlsrc⟩ := List.mem_filter.mp hl
          exact (htwo l.dst (.inr ⟨l, hl, of_decide_eq_true hlsrc, rfl⟩)).resolve_left
            (of_decide_eq_true hx)
      | none =>
          have hnone := List.find?_eq_none.mp hfirst
          rcases hone with heq | ⟨k, rfl | ⟨l, hl, hlsrc, rfl⟩, hk⟩
          · exact heq.symm
          · exact hsrc.symm.trans hk
          · have hold := hnone (s l.dst) (List.mem_map_of_mem
              (List.mem_filter.mpr ⟨hl, decide_eq_true hlsrc⟩))
            rw [decide_eq_true_eq, not_not] at hold
            exact hold.symm.trans hk

/-- Two passes, and nothing is pending any more. -/
theorem passes (h : Shows s ls c g old) (hstar : Star ls) (hc : ∀ l ∈ ls, l.dst ≠ c) :
    Shows (Mirror.passes asIs 2 (s, ls)).1 (Mirror.passes asIs 2 (s, ls)).2 c g.settle
      g.value := by
  obtain ⟨htwo, hone⟩ := h.two
  obtain ⟨p, hp⟩ : ∃ p, pass asIs s ls = p := ⟨_, rfl⟩
  have hsrc : p.1 c = g.value := by
    rw [← hp, hstar.pass_arbitrate hc h.seen, arbitrate_eq htwo hone]
  have hheld : ∀ l ∈ p.2, l.Held p.1 := by
    rw [← hp]
    exact hstar.pass_held
  have hends : p.2.map Link.ends = ls.map Link.ends := by
    rw [← hp]
    exact pass_ends asIs s ls
  obtain ⟨hdst, hframe, hlinks⟩ := (Star.of_ends hends.symm hstar).pass_of_held hheld
  have hsame : (pass asIs p.1 p.2).1 c = g.value := by
    rw [hframe c fun l hl heq => ?_, hsrc]
    rw [← hp] at hl
    obtain ⟨l', hl', -, hd⟩ := mem_before_pass asIs s hl
    exact hc l' hl' (hd.trans heq)
  rw [passes_succ, passes_succ, passes_zero, hp]
  refine ⟨fun l hl hlsrc => ?_, fun k hk _ => ?_, fun _ => rfl,
    fun _ hk => absurd hk.symm (Option.some_ne_none _)⟩
  · rw [hlinks] at hl
    obtain ⟨l', -, rfl⟩ := List.mem_map.mp hl
    have hvalue : p.1 l'.src = g.value := by rw [(show l'.src = c from hlsrc), hsrc]
    exact ⟨rfl, hvalue, hvalue⟩
  · rcases (around_ends (pass_ends asIs p.1 p.2) c k).mp hk with rfl | ⟨l, hl, hlsrc, rfl⟩
    · exact hsame
    · rw [hdst l hl, hlsrc, hsrc]

end Shows

end Mirror
