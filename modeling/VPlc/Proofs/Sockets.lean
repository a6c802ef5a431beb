import Mathlib.Data.List.Nodup
import Mathlib.Data.List.Perm.Subperm
import VPlc.Loop.Fold
import VPlc.Net.Sockets
import VPlc.Proofs.ModbusClients

/-!
# Descriptors of three servers

A handler closes its descriptor before it takes it out of the list, so for a while
the list has a descriptor that may already be another connection's, of this server
or of another one. Nothing comes of that as long as nobody goes by the list. The
handlers do not: they close what they were given. `stop()` does.

So the books of the process are in order, in every state and for every order of
the threads' actions, if every `stop()` has found its list empty; and where one did
not, then by the time all handlers are through, a descriptor has been closed that
was not open, or some connection's has been closed twice (`sockets_sound`). The
lists of the MC and the XGT server are then exact, and so are the counts that are
shown of them. That of the Modbus server may be short: it erases every entry of a
descriptor, the next connection's too.

`ModbusServer.Clients` has the Modbus server alone, with entries that say whom they
were entered for. It is kept for what needs that, which connection a `stop()` means;
its runs are runs here (`clients_sockets`).
-/

namespace VPlc

namespace Sockets

/-- The handler of `c` has been started, and has not taken it out of the list. -/
def Served (s : Sockets) (srv : TcpServer) (c : Nat) : Prop :=
  s.server c = srv ∧ (s.phase c = .serving ∨ s.phase c = .closed)

/-- A list has one entry for each handler. That of the Modbus server may have lost
some. -/
def Tracks (s : Sockets) (srv : TcpServer) : Prop :=
  ∃ cs : List Nat, cs.Nodup ∧ (∀ c, c ∈ cs ↔ s.Served srv c) ∧
    (s.clientFds srv).Subperm (cs.map s.fd) ∧
    (srv ≠ .modbus → (s.clientFds srv).Perm (cs.map s.fd))

def Holds (s : Sockets) (c : Nat) : Prop := s.phase c = .accepted ∨ s.phase c = .serving

def Ended (s : Sockets) (c : Nat) : Prop := s.phase c = .closed ∨ s.phase c = .gone

instance (s : Sockets) (c : Nat) : Decidable (s.Ended c) :=
  inferInstanceAs (Decidable (_ ∨ _))

def timesClosed (s : Sockets) (c : Nat) : Nat := (s.closes.map CloseCall.hit).count (some c)

/-- The books are in order. -/
structure Sound (s : Sockets) : Prop where
  /-- A connection has the descriptor it was given, and nobody else has it. -/
  own : ∀ f c, s.owner f = some c ↔ s.Holds c ∧ s.fd c = f
  /-- A handler has closed what it meant, and nobody else has closed anything. -/
  right : ∀ call ∈ s.closes, ∃ c, call = ⟨some c, some c⟩
  once : ∀ c, s.timesClosed c = if s.Ended c then 1 else 0
  tracked : ∀ srv, s.Tracks srv

/-- If this is a `stop()`, it finds its list empty. -/
def Quiet (s : Sockets) (a : Action) : Prop :=
  ∀ srv, a = .stop srv → s.clientFds srv = []

variable {s : Sockets} {c : Nat} {srv : TcpServer}

theorem init_sound : Sound init where
  own f c := by
    constructor
    · intro h
      cases h
    · rintro ⟨h | h, -⟩ <;> cases h
  right call hcall := by cases hcall
  once c := rfl
  tracked srv := by
    refine ⟨[], List.nodup_nil, fun c => iff_of_false List.not_mem_nil ?_,
      List.nil_subperm, fun _ => .nil⟩
    rintro ⟨-, h | h⟩ <;> cases h

/-! ## One connection moves on -/

section Moves

variable {s' : Sockets} {q : ModbusServer.Phase} (hphase : s'.phase = Function.update s.phase c q)

include hphase

theorem phase_congr (P : ModbusServer.Phase → Prop) (hsame : P q ↔ P (s.phase c)) (d : Nat) :
    P (s'.phase d) ↔ P (s.phase d) := by
  rw [hphase]
  by_cases hd : d = c
  · rwa [hd, Function.update_self]
  · rw [Function.update_of_ne hd]

theorem holds_congr (hsame : q = .accepted ∨ q = .serving ↔ s.Holds c) (d : Nat) :
    s'.Holds d ↔ s.Holds d :=
  phase_congr hphase (fun p => p = .accepted ∨ p = .serving) hsame d

theorem ended_congr (hsame : q = .closed ∨ q = .gone ↔ s.Ended c) (d : Nat) :
    s'.Ended d ↔ s.Ended d :=
  phase_congr hphase (fun p => p = .closed ∨ p = .gone) hsame d

theorem served_congr (hserver : s'.server = s.server) (hother : srv ≠ s.server c) (d : Nat) :
    s'.Served srv d ↔ s.Served srv d := by
  rw [Served, Served, hserver, hphase]
  by_cases hd : d = c
  · subst hd
    exact iff_of_false (fun h => hother h.1.symm) fun h => hother h.1.symm
  · rw [Function.update_of_ne hd]

end Moves

/-! ## The lists -/

theorem Tracks.congr {s' : Sockets} (h : s.Tracks srv)
    (hfds : s'.clientFds srv = s.clientFds srv)
    (hserved : ∀ c, s'.Served srv c ↔ s.Served srv c)
    (hfd : ∀ c, s.Served srv c → s'.fd c = s.fd c) : s'.Tracks srv := by
  obtain ⟨cs, hnodup, hmem, hsub, hperm⟩ := h
  have hmap : cs.map s'.fd = cs.map s.fd :=
    List.map_congr_left fun c hc => hfd c ((hmem c).mp hc)
  refine ⟨cs, hnodup, fun c => (hmem c).trans (hserved c).symm, ?_, ?_⟩
  · rwa [hfds, hmap]
  · rwa [hfds, hmap]

theorem takeOut_subperm (srv : TcpServer) (f : Nat) (fds : List Nat) :
    (takeOut srv f fds).Subperm (fds.erase f) := by
  cases srv with
  | modbus =>
      have hnot : f ∉ fds.filter (· ≠ f) := by simp
      have hsub := ((List.filter_sublist (p := (· ≠ f)) (l := fds)).erase f).subperm
      rwa [List.erase_of_not_mem hnot] at hsub
  | mc => exact List.Subperm.refl _
  | xgt => exact List.Subperm.refl _

theorem takeOut_perm (hsrv : srv ≠ .modbus) (f : Nat) (fds : List Nat) :
    takeOut srv f fds = fds.erase f := by
  cases srv with
  | modbus => exact absurd rfl hsrv
  | mc => rfl
  | xgt => rfl

/-! ## One action -/

theorem accept_sound {f : Nat} (h : Sound s) (hfresh : s.phase c = .fresh)
    (hfree : s.owner f = none) : Sound (s.accept srv c f) := by
  have hphase {d : Nat} (hd : d ≠ c) : (s.accept srv c f).phase d = s.phase d :=
    Function.update_of_ne hd _ _
  have hfd {d : Nat} (hd : d ≠ c) : (s.accept srv c f).fd d = s.fd d :=
    Function.update_of_ne hd _ _
  have hserver {d : Nat} (hd : d ≠ c) : (s.accept srv c f).server d = s.server d :=
    Function.update_of_ne hd _ _
  have hself : (s.accept srv c f).phase c = .accepted := Function.update_self _ _ _
  have hfdc : (s.accept srv c f).fd c = f := Function.update_self _ _ _
  constructor
  · intro g d
    by_cases hd : d = c
    · subst hd
      rw [Holds, hself, hfdc]
      by_cases hg : g = f
      · subst hg
        exact iff_of_true (Function.update_self _ _ _) ⟨.inl rfl, rfl⟩
      · refine iff_of_false (fun howner => ?_) fun hboth => hg hboth.2.symm
        have howner : s.owner g = some d := (Function.update_of_ne hg _ _).symm.trans howner
        have hholds := ((h.own g d).mp howner).1
        rw [Holds, hfresh] at hholds
        rcases hholds with hp | hp <;> cases hp
    · rw [Holds, hphase hd, hfd hd]
      refine Iff.trans ?_ (h.own g d)
      by_cases hg : g = f
      · subst hg
        rw [hfree]
        refine iff_of_false (fun howner => hd ?_) (Option.some_ne_none d).symm
        have howner : Function.update s.owner g (some c) g = some d := howner
        rw [Function.update_self] at howner
        exact (Option.some.inj howner).symm
      · exact iff_of_eq (congrArg (· = some d) (Function.update_of_ne hg _ _))
  · exact h.right
  · intro d
    have hended : (s.accept srv c f).Ended d ↔ s.Ended d := by
      refine ended_congr (s := s) (c := c) rfl ?_ d
      rw [Ended, hfresh]
      decide
    exact (h.once d).trans (if_congr hended.symm rfl rfl)
  · intro srv'
    have hnot {d : Nat} (hd : s.Served srv' d) : d ≠ c := by
      rintro rfl
      obtain ⟨-, hp⟩ := hd
      rw [hfresh] at hp
      rcases hp with hp | hp <;> cases hp
    refine (h.tracked srv').congr rfl (fun d => ?_) fun d hd => hfd (hnot hd)
    by_cases hd : d = c
    · refine iff_of_false ?_ fun hserved => hnot hserved hd
      subst hd
      rintro ⟨-, hp⟩
      rw [hself] at hp
      rcases hp with hp | hp <;> cases hp
    · rw [Served, Served, hphase hd, hserver hd]

theorem push_sound (h : Sound s) (hacc : s.phase c = .accepted) : Sound (s.push c) := by
  have hphase {d : Nat} (hd : d ≠ c) : (s.push c).phase d = s.phase d :=
    Function.update_of_ne hd _ _
  have hself : (s.push c).phase c = .serving := Function.update_self _ _ _
  have hholds (d : Nat) : (s.push c).Holds d ↔ s.Holds d := by
    refine holds_congr (s := s) (c := c) rfl ?_ d
    rw [Holds, hacc]
    decide
  have hended (d : Nat) : (s.push c).Ended d ↔ s.Ended d := by
    refine ended_congr (s := s) (c := c) rfl ?_ d
    rw [Ended, hacc]
    decide
  constructor
  · intro f d
    exact (h.own f d).trans (and_congr_left fun _ => (hholds d).symm)
  · exact h.right
  · intro d
    exact (h.once d).trans (if_congr (hended d).symm rfl rfl)
  · intro srv
    by_cases hsrv : srv = s.server c
    · subst hsrv
      obtain ⟨cs, hnodup, hmem, hsub, hperm⟩ := h.tracked (s.server c)
      have hnew : c ∉ cs := by
        intro hc
        obtain ⟨-, hp⟩ := (hmem c).mp hc
        rw [hacc] at hp
        rcases hp with hp | hp <;> cases hp
      have hfds : (s.push c).clientFds (s.server c) = s.clientFds (s.server c) ++ [s.fd c] :=
        Function.update_self _ _ _
      have hswap := List.perm_append_singleton (s.fd c) (s.clientFds (s.server c))
      refine ⟨c :: cs, List.nodup_cons.mpr ⟨hnew, hnodup⟩, fun d => ?_, ?_, fun hsrv => ?_⟩
      · rw [List.mem_cons]
        by_cases hd : d = c
        · subst hd
          exact iff_of_true (.inl rfl) ⟨rfl, .inl hself⟩
        · rw [Served, hphase hd]
          exact (or_iff_right hd).trans (hmem d)
      · rw [hfds, List.map_cons]
        exact hswap.subperm.trans ((List.subperm_cons _).mpr hsub)
      · rw [hfds, List.map_cons]
        exact hswap.trans ((hperm hsrv).cons _)
    · exact (h.tracked srv).congr (Function.update_of_ne hsrv _ _)
        (served_congr (s := s) (c := c) rfl rfl hsrv) fun _ _ => rfl

theorem close_sound (h : Sound s) (hserv : s.phase c = .serving) : Sound (s.close c) := by
  have hphase {d : Nat} (hd : d ≠ c) : (s.close c).phase d = s.phase d :=
    Function.update_of_ne hd _ _
  have hself : (s.close c).phase c = .closed := Function.update_self _ _ _
  have hown : s.owner (s.fd c) = some c := (h.own _ _).mpr ⟨.inr hserv, rfl⟩
  have hcloses : (s.close c).closes = s.closes ++ [⟨some c, some c⟩] := by
    show s.closes ++ [⟨some c, s.owner (s.fd c)⟩] = _
    rw [hown]
  constructor
  · intro f d
    by_cases hd : d = c
    · subst hd
      rw [Holds, hself]
      refine iff_of_false (fun howner => ?_) (by rintro ⟨hp | hp, -⟩ <;> cases hp)
      have howner : Function.update s.owner (s.fd d) none f = some d := howner
      by_cases hf : f = s.fd d
      · rw [hf, Function.update_self] at howner
        cases howner
      · rw [Function.update_of_ne hf] at howner
        exact hf ((h.own f d).mp howner).2.symm
    · rw [Holds, hphase hd]
      refine Iff.trans ?_ (h.own f d)
      by_cases hf : f = s.fd c
      · subst hf
        rw [hown]
        refine iff_of_false (fun howner => ?_) fun hsame => hd (Option.some.inj hsame).symm
        exact Option.some_ne_none d (howner.symm.trans (Function.update_self _ _ _))
      · exact iff_of_eq (congrArg (· = some d) (Function.update_of_ne hf _ _))
  · intro call hcall
    rw [hcloses] at hcall
    rcases List.mem_append.mp hcall with hcall | hcall
    · exact h.right call hcall
    · exact ⟨c, List.mem_singleton.mp hcall⟩
  · intro d
    have hcount : (s.close c).timesClosed d = s.timesClosed d + if c = d then 1 else 0 := by
      unfold timesClosed
      rw [hcloses, List.map_append, List.count_append]
      simp [List.count_singleton]
    rw [hcount, h.once d]
    by_cases hd : d = c
    · subst hd
      have hnot : ¬ s.Ended d := by
        rw [Ended, hserv]
        decide
      rw [if_neg hnot, if_pos rfl, if_pos (.inl hself)]
    · have hsame : s.Ended d ↔ (s.close c).Ended d := by
        rw [Ended, Ended, hphase hd]
      rw [if_neg (Ne.symm hd), Nat.add_zero]
      exact if_congr hsame rfl rfl
  · intro srv
    refine (h.tracked srv).congr rfl (fun d => and_congr_right fun _ => ?_) fun _ _ => rfl
    refine phase_congr (s := s) (c := c) rfl (fun p => p = .serving ∨ p = .closed) ?_ d
    rw [hserv]
    decide

theorem remove_sound (h : Sound s) (hclosed : s.phase c = .closed) : Sound (s.remove c) := by
  have hphase {d : Nat} (hd : d ≠ c) : (s.remove c).phase d = s.phase d :=
    Function.update_of_ne hd _ _
  have hself : (s.remove c).phase c = .gone := Function.update_self _ _ _
  have hholds (d : Nat) : (s.remove c).Holds d ↔ s.Holds d := by
    refine holds_congr (s := s) (c := c) rfl ?_ d
    rw [Holds, hclosed]
    decide
  have hended (d : Nat) : (s.remove c).Ended d ↔ s.Ended d := by
    refine ended_congr (s := s) (c := c) rfl ?_ d
    rw [Ended, hclosed]
    decide
  constructor
  · intro f d
    exact (h.own f d).trans (and_congr_left fun _ => (hholds d).symm)
  · exact h.right
  · intro d
    exact (h.once d).trans (if_congr (hended d).symm rfl rfl)
  · intro srv
    by_cases hsrv : srv = s.server c
    · subst hsrv
      obtain ⟨cs, hnodup, hmem, hsub, hperm⟩ := h.tracked (s.server c)
      have hc : c ∈ cs := (hmem c).mpr ⟨rfl, .inr hclosed⟩
      have hfds : (s.remove c).clientFds (s.server c) =
          takeOut (s.server c) (s.fd c) (s.clientFds (s.server c)) := Function.update_self _ _ _
      have herase : ((cs.map s.fd).erase (s.fd c)).Perm ((cs.erase c).map s.fd) := by
        have hmoved := ((List.perm_cons_erase hc).map s.fd).erase (s.fd c)
        rwa [List.map_cons, List.erase_cons_head] at hmoved
      refine ⟨cs.erase c, hnodup.erase c, fun d => ?_, ?_, fun hsrv => ?_⟩
      · rw [hnodup.mem_erase_iff, hmem d]
        by_cases hd : d = c
        · subst hd
          refine iff_of_false (fun hboth => hboth.1 rfl) ?_
          rintro ⟨-, hp⟩
          rw [hself] at hp
          rcases hp with hp | hp <;> cases hp
        · rw [Served, Served, hphase hd]
          exact and_iff_right hd
      · rw [hfds]
        exact (takeOut_subperm _ _ _).trans ((hsub.erase _).trans herase.subperm)
      · rw [hfds, takeOut_perm hsrv]
        exact ((hperm hsrv).erase _).trans herase
    · exact (h.tracked srv).congr (Function.update_of_ne hsrv _ _)
        (served_congr (s := s) (c := c) rfl rfl hsrv) fun _ _ => rfl

theorem stop_sound (h : Sound s) (hempty : s.clientFds srv = []) : Sound (s.stop srv) := by
  have hsame : s.stop srv = { s with stopped := Function.update s.stopped srv true } := by
    rw [stop, hempty, List.foldl_nil]
    have hfds : Function.update s.clientFds srv [] = s.clientFds := by
      rw [← hempty, Function.update_eq_self]
    rw [hfds]
  rw [hsame]
  exact ⟨h.own, h.right, h.once, h.tracked⟩

theorem exec_sound {a : Action} (h : Sound s) (hpossible : s.Possible a) (hquiet : s.Quiet a) :
    Sound (s.exec a) := by
  cases a with
  | accept srv c f => exact accept_sound h hpossible.2.2.1 hpossible.2.2.2
  | push c => exact push_sound h hpossible
  | close c => exact close_sound h hpossible
  | remove c => exact remove_sound h hpossible
  | stop srv => exact stop_sound h (hquiet srv rfl)

/-! ## When a list was not empty -/

/-- Whatever has happened: only connections that were accepted have descriptors or
have lost them, and a handler that has got to its end has called `close`. -/
structure Counted (s : Sockets) (cs : List Nat) : Prop where
  nodup : cs.Nodup
  known : ∀ c, c ∈ cs → s.phase c ≠ .fresh
  owner : ∀ f c, s.owner f = some c → c ∈ cs
  hit : ∀ call ∈ s.closes, ∀ c, call.hit = some c → c ∈ cs
  meant : ∀ c, s.Ended c → some c ∈ s.closes.map CloseCall.meant

theorem Counted.closeFd {cs : List Nat} (h : s.Counted cs) (m : Option Nat) (f : Nat) :
    (s.closeFd m f).Counted cs := by
  refine ⟨h.nodup, h.known, fun g c howner => ?_, fun call hcall c hhit => ?_, fun c hc => ?_⟩
  · have howner : Function.update s.owner f none g = some c := howner
    by_cases hg : g = f
    · rw [hg, Function.update_self] at howner
      cases howner
    · rw [Function.update_of_ne hg] at howner
      exact h.owner g c howner
  · rcases List.mem_append.mp hcall with hcall | hcall
    · exact h.hit call hcall c hhit
    · rw [List.mem_singleton.mp hcall] at hhit
      exact h.owner f c hhit
  · show some c ∈ (s.closes ++ [CloseCall.mk m (s.owner f)]).map CloseCall.meant
    rw [List.map_append]
    exact List.mem_append_left _ (h.meant c hc)

theorem Counted.phase {cs : List Nat} (h : s.Counted cs) {s' : Sockets} {p : ModbusServer.Phase}
    (hphase : s'.phase = Function.update s.phase c p) (howner : s'.owner = s.owner)
    (hcloses : s'.closes = s.closes) (hp : p ≠ .fresh)
    (hmeant : p = .closed ∨ p = .gone → some c ∈ s.closes.map CloseCall.meant) :
    s'.Counted cs := by
  refine ⟨h.nodup, fun d hd => ?_, howner ▸ h.owner, hcloses ▸ h.hit, fun d hd => ?_⟩
  · rw [hphase]
    by_cases hdc : d = c
    · rwa [hdc, Function.update_self]
    · rw [Function.update_of_ne hdc]
      exact h.known d hd
  · rw [hcloses]
    rw [Ended, hphase] at hd
    by_cases hdc : d = c
    · subst hdc
      rw [Function.update_self] at hd
      exact hmeant hd
    · rw [Function.update_of_ne hdc] at hd
      exact h.meant d hd

theorem Counted.exec {cs : List Nat} {a : Action} (h : s.Counted cs)
    (hpossible : s.Possible a) : ∃ cs', (s.exec a).Counted cs' := by
  cases a with
  | accept srv c f =>
      have hfresh : s.phase c = .fresh := hpossible.2.2.1
      have hself : (s.accept srv c f).phase c = .accepted := Function.update_self _ _ _
      have hphase {d : Nat} (hd : d ≠ c) : (s.accept srv c f).phase d = s.phase d :=
        Function.update_of_ne hd _ _
      have hnew : c ∉ cs := fun hc => h.known c hc hfresh
      refine ⟨c :: cs, List.nodup_cons.mpr ⟨hnew, h.nodup⟩, fun d hd => ?_, fun g d howner => ?_,
        fun call hcall d hhit => List.mem_cons_of_mem _ (h.hit call hcall d hhit), fun d hd => ?_⟩
      · show (s.accept srv c f).phase d ≠ .fresh
        rcases List.mem_cons.mp hd with rfl | hd
        · rw [hself]
          decide
        · rw [hphase fun heq => hnew (heq ▸ hd)]
          exact h.known d hd
      · have howner : Function.update s.owner f (some c) g = some d := howner
        by_cases hg : g = f
        · rw [hg, Function.update_self] at howner
          exact List.mem_cons.mpr (.inl (Option.some.inj howner).symm)
        · rw [Function.update_of_ne hg] at howner
          exact List.mem_cons_of_mem _ (h.owner g d howner)
      · have hd : (s.accept srv c f).Ended d := hd
        refine h.meant d ?_
        by_cases hdc : d = c
        · rw [Ended, hdc, hself] at hd
          rcases hd with hd | hd <;> cases hd
        · rwa [Ended, hphase hdc] at hd
  | push c =>
      refine ⟨cs, h.phase rfl rfl rfl (by decide) fun hp => ?_⟩
      rcases hp with hp | hp <;> cases hp
  | close c =>
      refine ⟨cs, (h.closeFd (some c) (s.fd c)).phase rfl rfl rfl (by decide) fun _ => ?_⟩
      exact List.mem_map.mpr ⟨_, List.mem_append_right _ List.mem_cons_self, rfl⟩
  | remove c => exact ⟨cs, h.phase rfl rfl rfl (by decide) fun _ => h.meant c (.inl hpossible)⟩
  | stop srv =>
      obtain ⟨hnodup, hknown, howner, hhit, hmeant⟩ := Loop.foldl_inv
        (I := fun s : Sockets => s.Counted cs) (fun _ f hs => hs.closeFd none f)
        (s.clientFds srv) h
      exact ⟨cs, hnodup, hknown, howner, hhit, hmeant⟩

theorem closes_closeFds (fs : List Nat) (s : Sockets) :
    s.closes <+: (fs.foldl (fun s fd => s.closeFd none fd) s).closes :=
  Loop.foldl_inv (I := fun t : Sockets => s.closes <+: t.closes)
    (fun _ _ ht => ht.trans (List.prefix_append _ _)) fs List.prefix_rfl

theorem closes_exec (s : Sockets) (a : Action) : s.closes <+: (s.exec a).closes := by
  cases a with
  | accept srv c f => exact List.prefix_rfl
  | push c => exact List.prefix_rfl
  | close c => exact List.prefix_append _ _
  | remove c => exact List.prefix_rfl
  | stop srv => exact closes_closeFds (s.clientFds srv) s

theorem closes_run (as : List Action) (s : Sockets) : s.closes <+: (as.foldl exec s).closes :=
  Loop.foldl_inv (I := fun t : Sockets => s.closes <+: t.closes)
    (fun t a ht => ht.trans (closes_exec t a)) as List.prefix_rfl

theorem stop_record {f : Nat} {fs : List Nat} (hfds : s.clientFds srv = f :: fs) :
    ⟨none, s.owner f⟩ ∈ (s.stop srv).closes := by
  show _ ∈ ((s.clientFds srv).foldl (fun s fd => s.closeFd none fd) s).closes
  rw [hfds, List.foldl_cons]
  have hgrows := closes_closeFds fs (s.closeFd none f)
  exact hgrows.subset (List.mem_append_right _ List.mem_cons_self)

theorem quiet_of_record {as : List Action} (s : Sockets)
    (hrecord : ∀ call ∈ (as.foldl exec s).closes, call.meant ≠ none) :
    Loop.Each exec Quiet s as := by
  induction as generalizing s with
  | nil => trivial
  | cons a as ih =>
      refine ⟨?_, ih (s.exec a) hrecord⟩
      rintro srv rfl
      cases hfds : s.clientFds srv with
      | nil => rfl
      | cons f fs =>
          have hcall := (closes_run as (s.stop srv)).subset (stop_record hfds)
          exact absurd rfl (hrecord _ hcall)

/-- If every call has closed a connection's descriptor, and no two the same one's,
there were no more calls than connections, and so none but the handlers'. -/
theorem Counted.meant_ne {cs : List Nat} (h : s.Counted cs)
    (hended : ∀ c, s.phase c = .fresh ∨ s.phase c = .gone)
    (hnodup : (s.closes.map CloseCall.hit).Nodup)
    (hhit : none ∉ s.closes.map CloseCall.hit) : ∀ call ∈ s.closes, call.meant ≠ none := by
  have hfew : s.closes.length ≤ cs.length := by
    have hsub : s.closes.map CloseCall.hit ⊆ cs.map some := by
      intro hit hmem
      obtain ⟨call, hcall, rfl⟩ := List.mem_map.mp hmem
      cases hc : call.hit with
      | none =>
          rw [hc] at hmem
          exact absurd hmem hhit
      | some c => exact List.mem_map_of_mem (h.hit call hcall c hc)
    have hlen := (hnodup.subperm hsub).length_le
    rwa [List.length_map, List.length_map] at hlen
  have hmany : cs.length ≤ (s.closes.filterMap CloseCall.meant).length := by
    refine (h.nodup.subperm fun c hc => ?_).length_le
    have hgone : s.Ended c := .inr ((hended c).resolve_left (h.known c hc))
    obtain ⟨call, hcall, hmeant⟩ := List.mem_map.mp (h.meant c hgone)
    exact List.mem_filterMap.mpr ⟨call, hcall, hmeant⟩
  intro call hcall hnone
  have hless : (s.closes.filterMap CloseCall.meant).length < s.closes.length :=
    List.length_filterMap_lt_length_iff_exists.mpr ⟨call, hcall, hnone⟩
  omega

/-! ## Runs -/

theorem run_sound {as : List Action} (hs : Sound s) (hpossible : Loop.Each exec Possible s as)
    (hquiet : Loop.Each exec Quiet s as) : Sound (as.foldl exec s) :=
  (hpossible.and hquiet).foldl (fun _ _ ht hok => exec_sound ht hok.1 hok.2) hs

theorem run_counted {as : List Action} {cs : List Nat} (hs : s.Counted cs)
    (hpossible : Loop.Each exec Possible s as) : ∃ cs', (as.foldl exec s).Counted cs' := by
  refine hpossible.foldl (I := fun t : Sockets => ∃ cs', t.Counted cs') ?_ ⟨cs, hs⟩
  rintro t a ⟨cs', hcounted⟩ hok
  exact hcounted.exec hok

theorem init_counted : init.Counted [] where
  nodup := List.nodup_nil
  known c hc := by cases hc
  owner f c h := by cases h
  hit call hcall := by cases hcall
  meant c h := by rcases h with h | h <;> cases h

/-- Every `close` took a connection's descriptor away, and no two the same one's. -/
def ClosesRight (s : Sockets) : Prop :=
  (s.closes.map CloseCall.hit).Nodup ∧ none ∉ s.closes.map CloseCall.hit

theorem Sound.closesRight (h : Sound s) : s.ClosesRight := by
  have hnone : none ∉ s.closes.map CloseCall.hit := by
    intro hmem
    obtain ⟨call, hcall, hhit⟩ := List.mem_map.mp hmem
    obtain ⟨c, rfl⟩ := h.right call hcall
    cases hhit
  refine ⟨List.nodup_iff_count_le_one.mpr fun hit => ?_, hnone⟩
  cases hit with
  | none => exact (List.count_eq_zero.mpr hnone).le.trans (Nat.zero_le 1)
  | some c =>
      refine (h.once c).le.trans ?_
      split <;> decide

/-- For any order of the actions of all threads of the three servers: where every
`stop()` has found its list empty the books are in order, and then every `close` was
right. Once all handlers are through, only there. -/
theorem sockets_sound {as : List Action} (hpossible : Loop.Each exec Possible init as) :
    (Loop.Each exec Quiet init as → Sound (run as) ∧ (run as).ClosesRight) ∧
    ((∀ c, (run as).phase c = .fresh ∨ (run as).phase c = .gone) → (run as).ClosesRight →
      Loop.Each exec Quiet init as) := by
  constructor
  · intro hquiet
    have hsound := run_sound init_sound hpossible hquiet
    exact ⟨hsound, hsound.closesRight⟩
  · rintro hended ⟨hnodup, hhit⟩
    obtain ⟨cs, hcounted⟩ := run_counted init_counted hpossible
    exact quiet_of_record init (hcounted.meant_ne hended hnodup hhit)

/-! ## The Modbus server alone -/

section Alone

open ModbusServer (Clients)

/-- The Modbus server as `Clients` has it and as it is here agree, but for whom a
`stop()` means: there an entry says whom it was entered for, here it is a descriptor. -/
structure Alike (s : Clients) (t : Sockets) : Prop where
  clientFds : t.clientFds .modbus = s.clientFds.map ModbusServer.Entry.fd
  accepting : t.accepting .modbus = s.accepting
  stopped : t.stopped .modbus = s.stopped
  owner : t.owner = s.owner
  server : ∀ c, t.server c = .modbus
  phase : t.phase = s.phase
  fd : t.fd = s.fd
  hits : t.closes.map CloseCall.hit = s.closes.map ModbusServer.CloseCall.hit

def onModbus : Clients.Action → Action
  | .accept c f => .accept .modbus c f
  | .push c => .push c
  | .close c => .close c
  | .remove c => .remove c
  | .stop => .stop .modbus

variable {s s' : Clients} {t : Sockets}

theorem Alike.closeFd (h : Alike s t) (c f : Nat) (m : Option Nat) :
    Alike (s.closeFd c f) (t.closeFd m f) where
  clientFds := h.clientFds
  accepting := h.accepting
  stopped := h.stopped
  owner := by simp only [Sockets.closeFd, Clients.closeFd, h.owner]
  server := h.server
  phase := h.phase
  fd := h.fd
  hits := by
    simp only [Sockets.closeFd, Clients.closeFd, List.map_append, List.map_cons, List.map_nil,
      h.hits, h.owner]

theorem Alike.closeFds (es : List ModbusServer.Entry) (h : Alike s t) :
    Alike (es.foldl (fun s e => s.closeFd e.conn e.fd) s)
      ((es.map ModbusServer.Entry.fd).foldl (fun t f => t.closeFd none f) t) := by
  induction es generalizing s t with
  | nil => exact h
  | cons e es ih => exact ih (h.closeFd e.conn e.fd none)

theorem Alike.accept (h : Alike s t) (c f : Nat) :
    Alike (s.accept c f) (t.accept .modbus c f) where
  clientFds := h.clientFds
  accepting := by simp only [Sockets.accept, Clients.accept, Function.update_self]
  stopped := h.stopped
  owner := by simp only [Sockets.accept, Clients.accept, h.owner]
  server d := by
    by_cases hd : d = c
    · simp only [Sockets.accept, hd, Function.update_self]
    · simp only [Sockets.accept, Function.update_of_ne hd, h.server]
  phase := by simp only [Sockets.accept, Clients.accept, h.phase]
  fd := by simp only [Sockets.accept, Clients.accept, h.fd]
  hits := h.hits

theorem Alike.push (h : Alike s t) (c : Nat) : Alike (s.push c) (t.push c) where
  clientFds := by
    simp only [Sockets.push, Clients.push, h.server, Function.update_self, h.clientFds, h.fd,
      List.map_append, List.map_cons, List.map_nil]
  accepting := by simp only [Sockets.push, Clients.push, h.server, Function.update_self]
  stopped := h.stopped
  owner := h.owner
  server := h.server
  phase := by simp only [Sockets.push, Clients.push, h.phase]
  fd := h.fd
  hits := h.hits

theorem Alike.close (h : Alike s t) (c : Nat) : Alike (s.close c) (t.close c) := by
  have hclosed := h.closeFd c (s.fd c) (some c)
  rw [Sockets.close, Clients.close, h.fd]
  exact ⟨hclosed.clientFds, hclosed.accepting, hclosed.stopped, hclosed.owner, hclosed.server,
    congrArg (fun phase => Function.update phase c .closed) h.phase, hclosed.fd, hclosed.hits⟩

theorem Alike.remove (h : Alike s t) (c : Nat) : Alike (s.remove c) (t.remove c) where
  clientFds := by
    simp only [Sockets.remove, Clients.remove, h.server, Function.update_self, h.clientFds, h.fd,
      takeOut, List.filter_map, Function.comp_def]
  accepting := h.accepting
  stopped := h.stopped
  owner := h.owner
  server := h.server
  phase := by simp only [Sockets.remove, Clients.remove, h.phase]
  fd := h.fd
  hits := h.hits

theorem Alike.stop (h : Alike s t) : Alike s.stop (t.stop .modbus) := by
  have hall := h.closeFds s.clientFds
  rw [Sockets.stop, Clients.stop, h.clientFds]
  refine ⟨?_, hall.accepting, ?_, hall.owner, hall.server, hall.phase, hall.fd, hall.hits⟩
  · simp only [Function.update_self, List.map_nil]
  · simp only [Function.update_self]

theorem Alike.exec (h : Alike s t) {a : Clients.Action} (hs : s.step a = some s') :
    t.Possible (onModbus a) ∧ Alike s' (t.exec (onModbus a)) := by
  cases a with
  | accept c f =>
      obtain ⟨⟨haccepting, hrun, hfresh, hfree⟩, heq⟩ := Option.ite_none_right_eq_some.mp hs
      obtain rfl := Option.some.inj heq
      exact ⟨⟨h.accepting.trans haccepting, h.stopped.trans hrun,
        (congrFun h.phase c).trans hfresh, (congrFun h.owner f).trans hfree⟩, h.accept c f⟩
  | push c =>
      obtain ⟨haccepted, heq⟩ := Option.ite_none_right_eq_some.mp hs
      obtain rfl := Option.some.inj heq
      exact ⟨(congrFun h.phase c).trans haccepted, h.push c⟩
  | close c =>
      obtain ⟨hserving, heq⟩ := Option.ite_none_right_eq_some.mp hs
      obtain rfl := Option.some.inj heq
      exact ⟨(congrFun h.phase c).trans hserving, h.close c⟩
  | remove c =>
      obtain ⟨hclosed, heq⟩ := Option.ite_none_right_eq_some.mp hs
      obtain rfl := Option.some.inj heq
      exact ⟨(congrFun h.phase c).trans hclosed, h.remove c⟩
  | stop =>
      obtain ⟨hrun, heq⟩ := Option.ite_none_right_eq_some.mp hs
      obtain rfl := Option.some.inj heq
      exact ⟨h.stopped.trans hrun, h.stop⟩

theorem Alike.run {as : List Clients.Action} (h : Alike s t) (hrun : s.run as = some s') :
    Loop.Each Sockets.exec Possible t (as.map onModbus) ∧
      Alike s' ((as.map onModbus).foldl Sockets.exec t) := by
  induction as generalizing s t with
  | nil =>
      obtain rfl : s = s' := Option.some.inj hrun
      exact ⟨trivial, h⟩
  | cons a as ih =>
      rw [Clients.run_cons] at hrun
      obtain ⟨s₁, hstep, hrest⟩ := Option.bind_eq_some_iff.mp hrun
      obtain ⟨hpossible, halike⟩ := h.exec hstep
      obtain ⟨hpossibles, hends⟩ := ih halike hrest
      exact ⟨⟨hpossible, hpossibles⟩, hends⟩

/-- What the Modbus server can do by itself it can do here, with the same outcome. -/
theorem clients_sockets {as : List Clients.Action} (hrun : Clients.init.run as = some s) :
    Loop.Each exec Possible init (as.map onModbus) ∧ Alike s (Sockets.run (as.map onModbus)) :=
  Alike.run ⟨rfl, rfl, rfl, rfl, fun _ => rfl, rfl, rfl, rfl⟩ hrun

end Alone

/-- A Modbus client goes, and while its descriptor is still in the list an MC client
is given it. -/
def handedOn : List Action :=
  [.accept .modbus 0 7, .push 0, .close 0, .accept .mc 1 7, .push 1, .remove 0, .close 1,
    .remove 1, .stop .modbus, .stop .mc]

theorem sockets_sound_handedOn :
    Sound (run handedOn) ∧ (run handedOn).ClosesRight := by
  have hpossible : Loop.Each exec Possible init handedOn :=
    ⟨by decide, by decide, by decide, by decide, by decide, by decide, by decide, by decide,
      by decide, by decide, trivial⟩
  refine (sockets_sound hpossible).1 ?_
  refine ⟨?_, ?_, ?_, ?_, ?_, ?_, ?_, ?_, ?_, ?_, trivial⟩ <;> intro srv hstop <;> cases hstop <;>
    decide

end Sockets

end VPlc
