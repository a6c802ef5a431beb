import VPlc.Modbus.Clients

/-!
# Who is tracked, and who closes

`handleClient` closes its descriptor and only then takes it out of the list. In
between the descriptor can be given to the next connection and entered again;
taking it out removes both entries, and the new connection is served but not
tracked. And `stop()` closes what is in the list although every handler closes
its own descriptor on the way out, so whatever it finds is closed twice, or was
closed already.

Two conditions keep clear of this (`Careful`): no handler takes a descriptor out
of the list that a connection being served has, and `stop()` finds the list empty.
Under them everything is in order at all times (`run_sound`), and a run that has
come to an end with everything in order has kept them (`careful_of_sound`).
-/

namespace VPlc

namespace ModbusServer

namespace Clients

def timesClosed (s : Clients) (c : Nat) : Nat := s.closes.countP (·.hit = some c)

/-- The books are in order. -/
structure Sound (s : Clients) : Prop where
  /-- Whoever is being served is in the list, until `stop()` has run. -/
  tracked : s.stopped = false → ∀ c, s.phase c = .serving →
    s.fd c ∈ s.clientFds.map Entry.fd
  /-- Every `close` took away the descriptor it was meant for. -/
  right : ∀ call ∈ s.closes, call.hit = some call.meant
  /-- No descriptor is closed twice, and one whose handler is through is closed. -/
  once : ∀ c, s.timesClosed c ≤ 1 ∧
    (s.phase c = .closed ∨ s.phase c = .gone → s.timesClosed c = 1)

/-- What an action must not meet: a handler that removes a descriptor which a
connection being served has, and a `stop()` with anything in the list. -/
def Careful (s : Clients) : Action → Prop
  | .remove c => s.stopped = false → ∀ d, s.phase d = .serving → s.fd d ≠ s.fd c
  | .stop => s.clientFds = []
  | _ => True

/-- Every action of the run is careful where it is taken. -/
def CarefulRun (s : Clients) : List Action → Prop
  | [] => True
  | a :: as => s.Careful a ∧ ∀ s', s.step a = some s' → CarefulRun s' as

/-! ## The invariant -/

def Phase.holds (p : Phase) : Prop := p = .accepted ∨ p = .serving

structure Inv (s : Clients) : Prop where
  own : ∀ c, Phase.holds (s.phase c) → s.owner (s.fd c) = some c
  owned : ∀ f c, s.owner f = some c → Phase.holds (s.phase c) ∧ s.fd c = f
  entries : ∀ e ∈ s.clientFds, s.fd e.conn = e.fd ∧
    (s.phase e.conn = .serving ∨ s.phase e.conn = .closed)
  tracked : s.stopped = false → ∀ c, s.phase c = .serving →
    s.fd c ∈ s.clientFds.map Entry.fd
  right : ∀ call ∈ s.closes, call.hit = some call.meant
  times : ∀ c, s.timesClosed c =
    if s.phase c = .closed ∨ s.phase c = .gone then 1 else 0

theorem Inv.sound {s : Clients} (h : Inv s) : Sound s where
  tracked := h.tracked
  right := h.right
  once := by
    intro c
    rw [h.times c]
    split
    · exact ⟨Nat.le_refl 1, fun _ => rfl⟩
    · next hc => exact ⟨Nat.zero_le _, fun hc' => absurd hc' hc⟩

theorem init_inv : Inv init where
  own := by
    intro c hc
    rcases hc with hc | hc <;> cases hc
  owned := by
    intro f c hc
    cases hc
  entries := by
    intro e he
    cases he
  tracked := by
    intro _ c hc
    cases hc
  right := by
    intro call hcall
    cases hcall
  times := by
    intro c
    rfl

variable {s s' : Clients} {c : Nat}

theorem not_fresh {p : Phase} (h : Phase.holds p) : p ≠ .fresh := by
  rintro rfl
  rcases h with h | h <;> cases h

theorem accept_inv {f : Nat} (h : Inv s) (hfresh : s.phase c = .fresh)
    (hfree : s.owner f = none) : Inv (s.accept c f) := by
  have hphase {d : Nat} (hd : d ≠ c) : (s.accept c f).phase d = s.phase d :=
    Function.update_of_ne hd _ _
  have hfd {d : Nat} (hd : d ≠ c) : (s.accept c f).fd d = s.fd d :=
    Function.update_of_ne hd _ _
  have hself : (s.accept c f).phase c = .accepted := Function.update_self _ _ _
  have hfdc : (s.accept c f).fd c = f := Function.update_self _ _ _
  have hnf {d : Nat} (hd : Phase.holds (s.phase d)) : s.fd d ≠ f := by
    rintro rfl
    rw [h.own d hd] at hfree
    cases hfree
  have hnc {d : Nat} (hd : s.phase d ≠ .fresh) : d ≠ c := by
    rintro rfl
    exact hd hfresh
  constructor
  · intro d hd
    by_cases hdc : d = c
    · subst hdc
      rw [hfdc]
      exact Function.update_self _ _ _
    · rw [hphase hdc] at hd
      rw [hfd hdc, ← h.own d hd]
      exact Function.update_of_ne (hnf hd) _ _
  · intro g d hg
    by_cases hgf : g = f
    · subst hgf
      have howner : (s.accept c g).owner g = some c := Function.update_self _ _ _
      obtain rfl : c = d := Option.some.inj (howner.symm.trans hg)
      exact ⟨.inl hself, hfdc⟩
    · have hg' : s.owner g = some d := (Function.update_of_ne hgf _ _).symm.trans hg
      obtain ⟨hd, hgd⟩ := h.owned g d hg'
      have hdc := hnc (not_fresh hd)
      rw [hphase hdc, hfd hdc]
      exact ⟨hd, hgd⟩
  · intro e he
    obtain ⟨he', hp⟩ := h.entries e he
    have hec : e.conn ≠ c := hnc (by rcases hp with hp | hp <;> rw [hp] <;> exact Phase.noConfusion)
    rw [hphase hec, hfd hec]
    exact ⟨he', hp⟩
  · intro hstop d hd
    by_cases hdc : d = c
    · subst hdc
      rw [hself] at hd
      cases hd
    · rw [hphase hdc] at hd
      rw [hfd hdc]
      exact h.tracked hstop d hd
  · exact h.right
  · intro d
    show s.timesClosed d = _
    by_cases hdc : d = c
    · subst hdc
      rw [hself, h.times, hfresh]
      rfl
    · rw [hphase hdc]
      exact h.times d

theorem push_inv (h : Inv s) (hacc : s.phase c = .accepted) : Inv (s.push c) := by
  have hphase {d : Nat} (hd : d ≠ c) : (s.push c).phase d = s.phase d :=
    Function.update_of_ne hd _ _
  have hself : (s.push c).phase c = .serving := Function.update_self _ _ _
  have hholds {d : Nat} : Phase.holds ((s.push c).phase d) ↔ Phase.holds (s.phase d) := by
    by_cases hdc : d = c
    · subst hdc
      rw [hself, hacc]
      exact iff_of_true (.inr rfl) (.inl rfl)
    · rw [hphase hdc]
  constructor
  · intro d hd
    exact h.own d (hholds.mp hd)
  · intro g d hg
    obtain ⟨hd, hgd⟩ := h.owned g d hg
    exact ⟨hholds.mpr hd, hgd⟩
  · intro e he
    by_cases hec : e.conn = c
    · rw [hec, hself]
      rcases List.mem_append.mp he with he | he
      · obtain ⟨-, hp⟩ := h.entries e he
        rw [hec, hacc] at hp
        rcases hp with hp | hp <;> cases hp
      · obtain rfl := List.mem_singleton.mp he
        exact ⟨rfl, .inl rfl⟩
    · rw [hphase hec]
      rcases List.mem_append.mp he with he | he
      · exact h.entries e he
      · obtain rfl := List.mem_singleton.mp he
        exact absurd rfl hec
  · intro hstop d hd
    show s.fd d ∈ (s.clientFds ++ [Entry.mk (s.fd c) c]).map Entry.fd
    rw [List.map_append]
    by_cases hdc : d = c
    · subst hdc
      exact List.mem_append_right _ List.mem_cons_self
    · rw [hphase hdc] at hd
      exact List.mem_append_left _ (h.tracked hstop d hd)
  · exact h.right
  · intro d
    show s.timesClosed d = _
    by_cases hdc : d = c
    · subst hdc
      rw [hself, h.times, hacc]
      rfl
    · rw [hphase hdc]
      exact h.times d

theorem close_inv (h : Inv s) (hserv : s.phase c = .serving) : Inv (s.close c) := by
  have hphase {d : Nat} (hd : d ≠ c) : (s.close c).phase d = s.phase d :=
    Function.update_of_ne hd _ _
  have hself : (s.close c).phase c = .closed := Function.update_self _ _ _
  have hown : s.owner (s.fd c) = some c := h.own c (.inr hserv)
  have hcloses : (s.close c).closes = s.closes ++ [⟨c, some c⟩] := by
    show s.closes ++ [⟨c, s.owner (s.fd c)⟩] = _
    rw [hown]
  have hne {d : Nat} (hd : Phase.holds ((s.close c).phase d)) : d ≠ c := by
    rintro rfl
    rw [hself] at hd
    rcases hd with hd | hd <;> cases hd
  constructor
  · intro d hd
    have hdc := hne hd
    rw [hphase hdc] at hd
    have hfd : s.fd d ≠ s.fd c := by
      intro heq
      have hboth := h.own d hd
      rw [heq, hown] at hboth
      exact hdc (Option.some.inj hboth).symm
    exact (Function.update_of_ne hfd _ _).trans (h.own d hd)
  · intro g d hg
    have hgc : g ≠ s.fd c := by
      rintro rfl
      exact Option.some_ne_none d (hg.symm.trans (Function.update_self _ _ _))
    have hg' : s.owner g = some d := (Function.update_of_ne hgc _ _).symm.trans hg
    obtain ⟨hd, hgd⟩ := h.owned g d hg'
    have hdc : d ≠ c := by
      rintro rfl
      exact hgc hgd.symm
    rw [hphase hdc]
    exact ⟨hd, hgd⟩
  · intro e he
    obtain ⟨he', hp⟩ := h.entries e he
    refine ⟨he', ?_⟩
    by_cases hec : e.conn = c
    · rw [hec, hself]
      exact .inr rfl
    · rw [hphase hec]
      exact hp
  · intro hstop d hd
    have hdc := hne (.inr hd)
    rw [hphase hdc] at hd
    exact h.tracked hstop d hd
  · intro call hcall
    rw [hcloses] at hcall
    rcases List.mem_append.mp hcall with hcall | hcall
    · exact h.right call hcall
    · rw [List.mem_singleton.mp hcall]
  · intro d
    have hcount : (s.close c).timesClosed d =
        s.timesClosed d + if c = d then 1 else 0 := by
      unfold timesClosed
      rw [hcloses, List.countP_append, List.countP_singleton]
      simp
    rw [hcount, h.times d]
    by_cases hdc : d = c
    · subst hdc
      rw [hself, hserv]
      simp
    · rw [hphase hdc, if_neg (Ne.symm hdc)]
      rfl

theorem remove_inv (h : Inv s) (hclosed : s.phase c = .closed)
    (hcare : s.Careful (.remove c)) : Inv (s.remove c) := by
  have hphase {d : Nat} (hd : d ≠ c) : (s.remove c).phase d = s.phase d :=
    Function.update_of_ne hd _ _
  have hself : (s.remove c).phase c = .gone := Function.update_self _ _ _
  have hne {d : Nat} (hd : Phase.holds (s.phase d)) : d ≠ c := by
    rintro rfl
    rw [hclosed] at hd
    rcases hd with hd | hd <;> cases hd
  have hne' {d : Nat} (hd : Phase.holds ((s.remove c).phase d)) : d ≠ c := by
    rintro rfl
    rw [hself] at hd
    rcases hd with hd | hd <;> cases hd
  constructor
  · intro d hd
    rw [hphase (hne' hd)] at hd
    exact h.own d hd
  · intro g d hg
    obtain ⟨hd, hgd⟩ := h.owned g d hg
    rw [hphase (hne hd)]
    exact ⟨hd, hgd⟩
  · intro e he
    obtain ⟨he, hefd⟩ := List.mem_filter.mp he
    obtain ⟨he', hp⟩ := h.entries e he
    have hec : e.conn ≠ c := by
      rintro rfl
      exact absurd he'.symm (of_decide_eq_true hefd)
    rw [hphase hec]
    exact ⟨he', hp⟩
  · intro hstop d hd
    have hdc := hne' (.inr hd)
    rw [hphase hdc] at hd
    obtain ⟨e, he, hefd⟩ := List.mem_map.mp (h.tracked hstop d hd)
    have hkeep : e.fd ≠ s.fd c := by
      rw [hefd]
      exact hcare hstop d hd
    exact List.mem_map.mpr ⟨e, List.mem_filter.mpr ⟨he, decide_eq_true hkeep⟩, hefd⟩
  · exact h.right
  · intro d
    show s.timesClosed d = _
    by_cases hdc : d = c
    · subst hdc
      rw [hself, h.times, hclosed]
      simp
    · rw [hphase hdc]
      exact h.times d

theorem stop_inv (h : Inv s) (hcare : s.Careful .stop) : Inv s.stop := by
  have hempty : s.clientFds = [] := hcare
  have hstop : s.stop = { s with clientFds := [], stopped := true } := by
    unfold stop
    rw [hempty]
    rfl
  rw [hstop]
  exact ⟨h.own, h.owned, fun e he => absurd he List.not_mem_nil,
    fun hrun => absurd hrun.symm Bool.false_ne_true, h.right, h.times⟩

/-- All an action can do. -/
theorem step_cases {a : Action} (hs : s.step a = some s') :
    (∃ c f, a = .accept c f ∧ s.phase c = .fresh ∧ s.owner f = none ∧
      s' = s.accept c f) ∨
    (∃ c, a = .push c ∧ s.phase c = .accepted ∧ s' = s.push c) ∨
    (∃ c, a = .close c ∧ s.phase c = .serving ∧ s' = s.close c) ∨
    (∃ c, a = .remove c ∧ s.phase c = .closed ∧ s' = s.remove c) ∨
    (a = .stop ∧ s.stopped = false ∧ s' = s.stop) := by
  cases a with
  | accept c f =>
      obtain ⟨⟨-, -, hfresh, hfree⟩, heq⟩ := Option.ite_none_right_eq_some.mp hs
      exact .inl ⟨c, f, rfl, hfresh, hfree, (Option.some.inj heq).symm⟩
  | push c =>
      obtain ⟨hacc, heq⟩ := Option.ite_none_right_eq_some.mp hs
      exact .inr (.inl ⟨c, rfl, hacc, (Option.some.inj heq).symm⟩)
  | close c =>
      obtain ⟨hserv, heq⟩ := Option.ite_none_right_eq_some.mp hs
      exact .inr (.inr (.inl ⟨c, rfl, hserv, (Option.some.inj heq).symm⟩))
  | remove c =>
      obtain ⟨hclosed, heq⟩ := Option.ite_none_right_eq_some.mp hs
      exact .inr (.inr (.inr (.inl ⟨c, rfl, hclosed, (Option.some.inj heq).symm⟩)))
  | stop =>
      obtain ⟨hrun, heq⟩ := Option.ite_none_right_eq_some.mp hs
      exact .inr (.inr (.inr (.inr ⟨rfl, hrun, (Option.some.inj heq).symm⟩)))

/-- One careful action keeps the books in order. -/
theorem step_inv {a : Action} (h : Inv s) (hcare : s.Careful a)
    (hs : s.step a = some s') : Inv s' := by
  rcases step_cases hs with ⟨c, f, rfl, hfresh, hfree, rfl⟩ | ⟨c, rfl, hacc, rfl⟩ |
    ⟨c, rfl, hserv, rfl⟩ | ⟨c, rfl, hclosed, rfl⟩ | ⟨rfl, -, rfl⟩
  · exact accept_inv h hfresh hfree
  · exact push_inv h hacc
  · exact close_inv h hserv
  · exact remove_inv h hclosed hcare
  · exact stop_inv h hcare

theorem run_cons (s : Clients) (a : Action) (as : List Action) :
    s.run (a :: as) = (s.step a).bind fun s' => s'.run as := rfl

theorem run_inv {as : List Action} (h : Inv s) (hcare : s.CarefulRun as)
    (hs : s.run as = some s') : Inv s' := by
  induction as generalizing s with
  | nil =>
      obtain rfl : s = s' := Option.some.inj hs
      exact h
  | cons a as ih =>
      rw [run_cons] at hs
      obtain ⟨t, ht, hrest⟩ := Option.bind_eq_some_iff.mp hs
      exact ih (step_inv h hcare.1 ht) (hcare.2 t ht) hrest

theorem carefulRun_of_append {as bs : List Action} (hpre : bs <+: as)
    (hcare : s.CarefulRun as) : s.CarefulRun bs := by
  induction bs generalizing s as with
  | nil => trivial
  | cons b bs ih =>
      cases as with
      | nil => exact absurd (List.prefix_nil.mp hpre) (List.cons_ne_nil b bs)
      | cons a as =>
          obtain ⟨rfl, hpre'⟩ := List.cons_prefix_cons.mp hpre
          exact ⟨hcare.1, fun t ht => ih hpre' (hcare.2 t ht)⟩

/-! ## A run that was not careful -/

/-- Connection `c` has lost its descriptor and has yet to close it. -/
def Robbed (s : Clients) (c : Nat) : Prop :=
  s.phase c = .serving ∧ s.owner (s.fd c) ≠ some c

/-- A `close` took away something else than it was meant for. -/
def Wrong (s : Clients) : Prop := ∃ call ∈ s.closes, call.hit ≠ some call.meant

theorem Wrong.not_sound (h : Wrong s) : ¬ Sound s := by
  obtain ⟨call, hcall, hwrong⟩ := h
  exact fun hs => hwrong (hs.right call hcall)

theorem foldl_closeFd (es : List Entry) (s : Clients) :
    let t := es.foldl (fun s e => s.closeFd e.conn e.fd) s
    t.phase = s.phase ∧ t.fd = s.fd ∧ s.closes <+: t.closes ∧
      (∀ f, t.owner f = s.owner f ∨ t.owner f = none) ∧
      (∀ e ∈ es, t.owner e.fd = none) ∧
      ∀ e ∈ es, s.owner e.fd ≠ some e.conn → Wrong t := by
  induction es generalizing s with
  | nil =>
      exact ⟨rfl, rfl, List.prefix_rfl, fun _ => .inl rfl, fun e he => absurd he List.not_mem_nil,
        fun e he => absurd he List.not_mem_nil⟩
  | cons e es ih =>
      obtain ⟨hphase, hfd, hcloses, howner, hgone, hwrong⟩ := ih (s.closeFd e.conn e.fd)
      have hfirst (f : Nat) : (s.closeFd e.conn e.fd).owner f = s.owner f ∨
          (s.closeFd e.conn e.fd).owner f = none := by
        by_cases hf : f = e.fd
        · subst hf
          exact .inr (Function.update_self _ _ _)
        · exact .inl (Function.update_of_ne hf _ _)
      have hself : (s.closeFd e.conn e.fd).owner e.fd = none := Function.update_self _ _ _
      refine ⟨hphase, hfd, (List.prefix_append _ _).trans hcloses, ?_, ?_, ?_⟩
      · intro f
        rcases howner f with heq | heq
        · rw [List.foldl_cons, heq]
          exact hfirst f
        · exact .inr heq
      · refine List.forall_mem_cons.mpr ⟨?_, hgone⟩
        rcases howner e.fd with heq | heq
        · exact heq.trans hself
        · exact heq
      · refine List.forall_mem_cons.mpr ⟨?_, ?_⟩
        · intro hne
          exact ⟨_, hcloses.subset (List.mem_append_right _ List.mem_cons_self), hne⟩
        · intro d hd hne
          refine hwrong d hd ?_
          rcases hfirst d.fd with heq | heq
          · rwa [heq]
          · rw [heq]
            exact (Option.some_ne_none _).symm

/-- Nobody gives a lost descriptor back; its `close` will be wrong. -/
theorem step_robbed {a : Action} (h : Robbed s c ∨ Wrong s) (hs : s.step a = some s') :
    Robbed s' c ∨ Wrong s' := by
  have hgrow (hpre : s.closes <+: s'.closes) (hw : Wrong s) : Wrong s' := by
    obtain ⟨call, hcall, hwrong⟩ := hw
    exact ⟨call, hpre.subset hcall, hwrong⟩
  rcases step_cases hs with ⟨d, f, rfl, hfresh, hfree, rfl⟩ | ⟨d, rfl, hacc, rfl⟩ |
    ⟨d, rfl, hserv, rfl⟩ | ⟨d, rfl, hclosed, rfl⟩ | ⟨rfl, -, rfl⟩
  · refine h.imp ?_ (hgrow List.prefix_rfl)
    rintro ⟨hc, hlost⟩
    have hcd : c ≠ d := by
      rintro rfl
      rw [hfresh] at hc
      cases hc
    have hfd : (s.accept d f).fd c = s.fd c := Function.update_of_ne hcd _ _
    refine ⟨(Function.update_of_ne hcd _ _).trans hc, ?_⟩
    rw [hfd]
    by_cases hf : s.fd c = f
    · have howner : (s.accept d f).owner (s.fd c) = some d := by
        rw [hf]
        exact Function.update_self _ _ _
      rw [howner]
      exact fun heq => hcd (Option.some.inj heq).symm
    · have howner : (s.accept d f).owner (s.fd c) = s.owner (s.fd c) :=
        Function.update_of_ne hf _ _
      rwa [howner]
  · refine h.imp ?_ (hgrow List.prefix_rfl)
    rintro ⟨hc, hlost⟩
    have hcd : c ≠ d := by
      rintro rfl
      rw [hacc] at hc
      cases hc
    exact ⟨(Function.update_of_ne hcd _ _).trans hc, hlost⟩
  · by_cases hcd : c = d
    · subst hcd
      rcases h with ⟨-, hlost⟩ | hw
      · exact .inr ⟨_, List.mem_append_right _ List.mem_cons_self, hlost⟩
      · exact .inr (hgrow (List.prefix_append _ _) hw)
    · refine h.imp ?_ (hgrow (List.prefix_append _ _))
      rintro ⟨hc, hlost⟩
      refine ⟨(Function.update_of_ne hcd _ _).trans hc, ?_⟩
      show Function.update s.owner (s.fd d) none (s.fd c) ≠ some c
      by_cases hf : s.fd c = s.fd d
      · rw [hf, Function.update_self]
        exact (Option.some_ne_none c).symm
      · rwa [Function.update_of_ne hf]
  · refine h.imp ?_ (hgrow List.prefix_rfl)
    rintro ⟨hc, hlost⟩
    have hcd : c ≠ d := by
      rintro rfl
      rw [hclosed] at hc
      cases hc
    exact ⟨(Function.update_of_ne hcd _ _).trans hc, hlost⟩
  · obtain ⟨hphase, hfd, hcloses, howner, -, -⟩ := foldl_closeFd s.clientFds s
    refine h.imp ?_ (hgrow hcloses)
    rintro ⟨hc, hlost⟩
    refine ⟨(congrFun hphase c).trans hc, ?_⟩
    have hfdc : s.stop.fd c = s.fd c := congrFun hfd c
    rw [hfdc]
    rcases howner (s.fd c) with heq | heq
    · exact fun hc' => hlost (heq.symm.trans hc')
    · exact fun hc' => Option.some_ne_none c (hc'.symm.trans heq)

theorem run_robbed {as : List Action} (h : Robbed s c ∨ Wrong s)
    (hs : s.run as = some s') (hdone : s'.phase c ≠ .serving) : Wrong s' := by
  induction as generalizing s with
  | nil =>
      obtain rfl : s = s' := Option.some.inj hs
      rcases h with ⟨hc, -⟩ | hw
      · exact absurd hc hdone
      · exact hw
  | cons a as ih =>
      rw [run_cons] at hs
      obtain ⟨t, ht, hrest⟩ := Option.bind_eq_some_iff.mp hs
      exact ih (step_robbed h ht) hrest

/-- What an action that is not careful leads to: the books are wrong right after
it, or a connection has lost its descriptor. -/
theorem not_careful {a : Action} (h : Inv s) (hs : s.step a = some s')
    (hcare : ¬ s.Careful a) : ¬ Sound s' ∨ ∃ c, Robbed s' c := by
  rcases step_cases hs with ⟨d, f, rfl, -, -, rfl⟩ | ⟨d, rfl, -, rfl⟩ |
    ⟨d, rfl, -, rfl⟩ | ⟨c, rfl, hclosed, rfl⟩ | ⟨rfl, -, rfl⟩
  · exact absurd trivial hcare
  · exact absurd trivial hcare
  · exact absurd trivial hcare
  · -- the descriptor of `d` goes with that of `c`
    obtain ⟨hrun, d, hd, hfd⟩ : s.stopped = false ∧ ∃ d, s.phase d = .serving ∧
        s.fd d = s.fd c := by
      simpa [Careful] using hcare
    left
    intro hsound
    have hdc : d ≠ c := by
      rintro rfl
      rw [hclosed] at hd
      cases hd
    have hd' : (s.remove c).phase d = .serving := (Function.update_of_ne hdc _ _).trans hd
    obtain ⟨e, he, hefd⟩ := List.mem_map.mp (hsound.tracked hrun d hd')
    have hkept := of_decide_eq_true (List.mem_filter.mp he).2
    exact hkept (hefd.trans hfd)
  · obtain ⟨hphase, hfd, -, -, hgone, hwrong⟩ := foldl_closeFd s.clientFds s
    obtain ⟨e, he⟩ := List.exists_mem_of_ne_nil _ hcare
    obtain ⟨hefd, hserv | hclosed⟩ := h.entries e he
    · refine .inr ⟨e.conn, (congrFun hphase _).trans hserv, ?_⟩
      have howner : s.stop.owner (s.stop.fd e.conn) = none := by
        rw [show s.stop.fd e.conn = e.fd from (congrFun hfd _).trans hefd]
        exact hgone e he
      rw [howner]
      exact (Option.some_ne_none _).symm
    · refine .inl (Wrong.not_sound (hwrong e he ?_))
      intro howner
      rcases (h.owned _ _ howner).1 with hp | hp <;> rw [hclosed] at hp <;> cases hp

/-- A run that ends with every handler through, and whose books were in order all
the time, was careful. -/
theorem careful_of_sound {as : List Action} (h : Inv s) (hs : s.run as = some s')
    (hdone : ∀ c, s'.phase c ≠ .serving)
    (hsound : ∀ before t, before <+: as → s.run before = some t → Sound t) :
    s.CarefulRun as := by
  induction as generalizing s with
  | nil => trivial
  | cons a as ih =>
      have hrun := hs
      rw [run_cons] at hs
      obtain ⟨t, ht, hrest⟩ := Option.bind_eq_some_iff.mp hs
      have hafter (before : List Action) : s.run (a :: before) = t.run before := by
        rw [run_cons, ht]
        rfl
      have hcare : s.Careful a := by
        by_contra hcare
        rcases not_careful h ht hcare with hbad | ⟨c, hrobbed⟩
        · exact hbad (hsound [a] t (List.cons_prefix_cons.mpr ⟨rfl, List.nil_prefix⟩)
            (hafter []))
        · have hwrong := run_robbed (.inl hrobbed) hrest (hdone c)
          exact hwrong.not_sound (hsound _ s' List.prefix_rfl hrun)
      refine ⟨hcare, ?_⟩
      intro t' ht'
      obtain rfl : t = t' := Option.some.inj (ht.symm.trans ht')
      refine ih (step_inv h hcare ht) hrest ?_
      intro before u hpre hu
      exact hsound (a :: before) u (List.cons_prefix_cons.mpr ⟨rfl, hpre⟩)
        ((hafter before).trans hu)

/-- In a run whose actions are careful the books are in order in every state. And
only there: a run at whose end every handler is through, and whose books were in
order in every state, was careful. -/
theorem clients_sound {as : List Action} {s : Clients} (hrun : init.run as = some s) :
    (init.CarefulRun as →
      ∀ before t, before <+: as → init.run before = some t → Sound t) ∧
    ((∀ c, s.phase c = .fresh ∨ s.phase c = .gone) →
      (∀ before t, before <+: as → init.run before = some t → Sound t) →
      init.CarefulRun as) := by
  constructor
  · intro hcare before t hpre ht
    exact (run_inv init_inv (carefulRun_of_append hpre hcare) ht).sound
  · intro hdone hsound
    refine careful_of_sound init_inv hrun ?_ hsound
    intro c hc
    rcases hdone c with hd | hd <;> rw [hc] at hd <;> cases hd

/-- One client comes and goes, and then the server is stopped. -/
def oneClient : List Action := [.accept 0 7, .push 0, .close 0, .remove 0, .stop]

theorem oneClient_careful : init.CarefulRun oneClient := by
  refine ⟨trivial, fun s hs => ⟨trivial, fun t ht => ⟨trivial, fun u hu => ⟨?_, ?_⟩⟩⟩⟩ <;>
    obtain rfl : init.accept 0 7 = s := Option.some.inj hs <;>
    obtain rfl : (init.accept 0 7).push 0 = t := Option.some.inj ht <;>
    obtain rfl : ((init.accept 0 7).push 0).close 0 = u := Option.some.inj hu
  · intro _ d hd
    have hd' : Function.update (Function.update (Function.update (fun _ => Phase.fresh) 0
      Phase.accepted) 0 Phase.serving) 0 Phase.closed d = Phase.serving := hd
    by_cases hd0 : d = 0
    · subst hd0
      cases hd'
    · rw [Function.update_of_ne hd0, Function.update_of_ne hd0,
        Function.update_of_ne hd0] at hd'
      cases hd'
  · intro v hv
    obtain rfl := Option.some.inj hv
    exact ⟨rfl, fun _ _ => trivial⟩

theorem clients_sound_one :
    Sound ((init.accept 0 7).push 0) ∧
      Sound (((((init.accept 0 7).push 0).close 0).remove 0).stop) := by
  have hrun : init.run oneClient = some (((((init.accept 0 7).push 0).close 0).remove 0).stop) :=
    rfl
  have hsound := (clients_sound hrun).1 oneClient_careful
  exact ⟨hsound [.accept 0 7, .push 0] _ ⟨[.close 0, .remove 0, .stop], rfl⟩ rfl,
    hsound oneClient _ (List.prefix_refl _) rfl⟩

/-- The descriptor comes back before the first handler has removed it. -/
def overlapping : List Action :=
  [.accept 0 7, .push 0, .close 0, .accept 1 7, .push 1, .remove 0]

/-- The second connection is served and not in the list. -/
theorem clients_not_sound :
    ¬ ∀ (as : List Action) (s : Clients), init.run as = some s → Sound s := by
  intro h
  obtain ⟨s, hs, hphase, hlist, hstop⟩ : ∃ s, init.run overlapping = some s ∧
      s.phase 1 = .serving ∧ s.clientFds = [] ∧ s.stopped = false :=
    ⟨_, rfl, rfl, rfl, rfl⟩
  have htracked := (h overlapping s hs).tracked hstop 1 hphase
  rw [hlist] at htracked
  cases htracked

end Clients

end ModbusServer

end VPlc
