import VPlc.Net.Session

/-!
# The same stream cut differently

Two connections are alike when the same bytes are still to come on both, however
they are cut, and everything else about them is equal. A loop that waits for a
number of bytes gets the same on both, or fails on both (`SameStream.recvExact`),
and leaves them alike; so does a turn that reads in no other way. From such a turn
(`Steady`) follows everything about a run: the requests, the replies, and when it
ends (`run_alike`, `live_alike`).

That it does end is a matter of bytes again. A turn that goes on has taken some
off the stream (`Advances`), so there are no more turns than bytes (`live_ends`).

A turn that reads a header and then what the header announces has both
(`framed_steady`, `framed_advances`).
-/

namespace Net

variable {α : Type}

theorem Arrives.recvExact_short {cs : List (List α)} {bs : List α} {want : Nat}
    (h : Arrives cs bs) (hlt : bs.length < want) :
    Net.recvExact want cs = (none, []) := by
  obtain ⟨want, rfl⟩ : ∃ k, want = k + 1 := ⟨want - 1, by omega⟩
  induction cs generalizing bs want with
  | nil => rfl
  | cons c cs ih =>
      have hc : c ≠ [] := h.nonempty c List.mem_cons_self
      have hlen : c.length + cs.flatten.length = bs.length := by
        rw [← h.flatten, List.flatten_cons, List.length_append]
      have hpos : 0 < c.length := List.length_pos_iff.mpr hc
      have hne : ¬ c.isEmpty = true := by rwa [List.isEmpty_iff]
      have hrest : Arrives cs cs.flatten :=
        ⟨rfl, fun d hd => h.nonempty d (List.mem_cons_of_mem _ hd)⟩
      obtain ⟨k, hk⟩ : ∃ k, want + 1 - c.length = k + 1 :=
        ⟨want - c.length, by omega⟩
      rw [Net.recvExact, if_neg hne, if_pos (by omega), hk,
        ih hrest k (by omega)]
      rfl

/-- The loop gets what it waits for, or finds the stream at its end. -/
theorem Arrives.recvExact_cases {cs : List (List α)} {bs : List α}
    (h : Arrives cs bs) (want : Nat) :
    (∃ a b cs', bs = a ++ b ∧ a.length = want ∧
      Net.recvExact want cs = (some a, cs') ∧ Arrives cs' b) ∨
    (bs.length < want ∧ Net.recvExact want cs = (none, [])) := by
  rcases Nat.lt_or_ge bs.length want with hlt | hle
  · exact .inr ⟨hlt, h.recvExact_short hlt⟩
  · have hlen : (bs.take want).length = want := by
      rw [List.length_take]
      omega
    rw [← List.take_append_drop want bs] at h
    obtain ⟨cs', hrecv, hrest⟩ := h.recvExact
    rw [hlen] at hrecv
    exact .inl ⟨_, _, cs', (List.take_append_drop want bs).symm, hlen, hrecv, hrest⟩

/-- The same bytes are to come. -/
def SameStream (cs ds : List (List α)) : Prop := ∃ bs, Arrives cs bs ∧ Arrives ds bs

theorem SameStream.nil : SameStream ([] : List (List α)) [] := ⟨[], .nil, .nil⟩

theorem SameStream.recvExact {cs ds : List (List α)} (h : SameStream cs ds)
    (want : Nat) :
    ∃ r cs' ds', Net.recvExact want cs = (r, cs') ∧
      Net.recvExact want ds = (r, ds') ∧ SameStream cs' ds' := by
  obtain ⟨bs, hcs, hds⟩ := h
  rcases hcs.recvExact_cases want with ⟨a, b, cs', rfl, rfl, hr, hb⟩ | ⟨hlt, hr⟩
  · obtain ⟨ds', hr', hb'⟩ := hds.recvExact
    exact ⟨_, cs', ds', hr, hr', b, hb, hb'⟩
  · exact ⟨_, _, _, hr, hds.recvExact_short hlt, .nil⟩

namespace Session

variable {σ β : Type}

/-- The loop is still going after so many turns. -/
def live (turn : Session σ → Session σ × Bool) : Nat → Session σ → Bool
  | 0, _ => true
  | n + 1, s =>
      let r := turn s
      if r.2 then live turn n r.1 else false

/-- Equal but for how what is to come is cut. -/
structure Alike (s t : Session σ) : Prop where
  state : s.state = t.state
  stream : SameStream s.incoming t.incoming
  requests : s.requests = t.requests
  outgoing : s.outgoing = t.outgoing

/-- The turn keeps connections alike and ends neither or both. -/
def Steady (turn : Session σ → Session σ × Bool) : Prop :=
  ∀ s t, Alike s t → (turn s).2 = (turn t).2 ∧ Alike (turn s).1 (turn t).1

/-- A turn that goes on has taken something off the stream. -/
def Advances (turn : Session σ → Session σ × Bool) : Prop :=
  ∀ s bs, Arrives s.incoming bs → (turn s).2 = true →
    ∃ bs', Arrives (turn s).1.incoming bs' ∧ bs'.length < bs.length

variable {turn : Session σ → Session σ × Bool} {s t : Session σ}

theorem Alike.read (h : Alike s t) {cs ds : List (List UInt8)}
    (hstream : SameStream cs ds) :
    Alike { s with incoming := cs } { t with incoming := ds } :=
  ⟨h.state, hstream, h.requests, h.outgoing⟩

theorem Alike.serve (h : Alike s t) (process : σ → List UInt8 → σ × List UInt8)
    (frame : List UInt8 → List UInt8) (request : List UInt8) :
    Alike (s.serve process frame request) (t.serve process frame request) where
  state := by
    show (process s.state request).1 = (process t.state request).1
    rw [h.state]
  stream := h.stream
  requests := by
    show s.requests ++ [request] = t.requests ++ [request]
    rw [h.requests]
  outgoing := by
    show s.outgoing ++ [frame (process s.state request).2] =
      t.outgoing ++ [frame (process t.state request).2]
    rw [h.outgoing, h.state]

theorem run_alike (hturn : Steady turn) (n : Nat) (h : Alike s t) :
    Alike (run turn n s) (run turn n t) := by
  induction n generalizing s t with
  | zero => exact h
  | succ n ih =>
      obtain ⟨hgo, hnext⟩ := hturn s t h
      simp only [run, hgo]
      split
      · exact ih hnext
      · exact hnext

theorem live_alike (hturn : Steady turn) (n : Nat) (h : Alike s t) :
    live turn n s = live turn n t := by
  induction n generalizing s t with
  | zero => rfl
  | succ n ih =>
      obtain ⟨hgo, hnext⟩ := hturn s t h
      simp only [live, hgo]
      split
      · exact ih hnext
      · rfl

/-- There are no more turns than bytes. -/
theorem live_ends (hturn : Advances turn) {n : Nat} {bs : List UInt8}
    (h : Arrives s.incoming bs) (hn : bs.length < n) : live turn n s = false := by
  induction n generalizing s bs with
  | zero => exact absurd hn (Nat.not_lt_zero _)
  | succ n ih =>
      simp only [live]
      split
      · next hgo =>
          obtain ⟨bs', hbs', hlt⟩ := hturn s bs h hgo
          exact ih hbs' (by omega)
      · rfl

/-- However a stream is cut, the server that takes these turns makes the same
requests of it and the same replies, leaves the same state, and ends the
connection at the same turn; and it does end it. -/
structure SegmentationFree (turn : Session σ → Session σ × Bool) (m : σ) : Prop where
  same : ∀ stream pieces pieces', Arrives pieces stream → Arrives pieces' stream →
    ∀ n,
      (run turn n (start m pieces)).requests = (run turn n (start m pieces')).requests ∧
      (run turn n (start m pieces)).outgoing = (run turn n (start m pieces')).outgoing ∧
      (run turn n (start m pieces)).state = (run turn n (start m pieces')).state ∧
      live turn n (start m pieces) = live turn n (start m pieces')
  ends : ∀ stream pieces, Arrives pieces stream → ∀ n, stream.length < n →
    live turn n (start m pieces) = false

theorem segmentationFree (hsteady : Steady turn) (hadvances : Advances turn) (m : σ) :
    SegmentationFree turn m where
  same := by
    intro stream pieces pieces' h h' n
    have halike : Alike (start m pieces) (start m pieces') :=
      ⟨rfl, ⟨stream, h, h'⟩, rfl, rfl⟩
    have hrun := run_alike hsteady n halike
    exact ⟨hrun.requests, hrun.outgoing, hrun.state, live_alike hsteady n halike⟩
  ends := by
    intro stream pieces h n hn
    exact live_ends hadvances h hn

/-! ## What the requests are taken from -/

/-- What a turn takes for requests it takes off the stream, from the front, and a
turn that goes on leaves the rest. -/
def Takes (turn : Session σ → Session σ × Bool) : Prop :=
  ∀ s bs, Arrives s.incoming bs → ∃ taken,
    (turn s).1.requests.flatten = s.requests.flatten ++ taken ∧ taken <+: bs ∧
      ((turn s).2 = true → ∃ rest, Arrives (turn s).1.incoming rest ∧ taken ++ rest <+: bs)

/-- A run skips nothing between two requests, and takes nothing twice. -/
theorem run_takes (hturn : Takes turn) (n : Nat) {bs : List UInt8}
    (h : Arrives s.incoming bs) :
    ∃ taken, (run turn n s).requests.flatten = s.requests.flatten ++ taken ∧
      taken <+: bs := by
  induction n generalizing s bs with
  | zero => exact ⟨[], (List.append_nil _).symm, List.nil_prefix⟩
  | succ n ih =>
      obtain ⟨taken, hrequests, hahead, hleaves⟩ := hturn s bs h
      simp only [run]
      split
      · next hgo =>
          obtain ⟨rest, hrest, hall⟩ := hleaves hgo
          obtain ⟨taken', hrequests', hahead'⟩ := ih hrest
          refine ⟨taken ++ taken', ?_, ?_⟩
          · rw [hrequests', hrequests, List.append_assoc]
          · exact ((List.prefix_append_right_inj taken).mpr hahead').trans hall
      · exact ⟨taken, hrequests, hahead⟩

theorem run_inv {P : Session σ → Prop} (hturn : ∀ s, P s → P (turn s).1) (n : Nat)
    (h : P s) : P (run turn n s) := by
  induction n generalizing s with
  | zero => exact h
  | succ n ih =>
      simp only [run]
      split
      · exact ih (hturn s h)
      · exact hturn s h

/-- Everything processed so far has been answered. -/
def Answered (s : Session σ) : Prop := s.outgoing.length = s.requests.length

theorem Answered.serve (h : Answered s) (process : σ → List UInt8 → σ × List UInt8)
    (frame : List UInt8 → List UInt8) (incoming : List (List UInt8)) (request : List UInt8) :
    Answered (serve process frame { s with incoming } request) := by
  simp only [Answered, Session.serve, List.length_append, List.length_singleton]
  rw [show s.outgoing.length = s.requests.length from h]

/-! ## A header and what it announces -/

section Framed

variable (size : Nat) (announces : List UInt8 → Option Nat)
  (process : σ → List UInt8 → σ × List UInt8)
  (frame : List UInt8 → List UInt8 → List UInt8)
  (request : List UInt8 → List UInt8 → List UInt8) (sends : Nat → Bool)

/-- A turn that reads a header, then as many bytes as it announces, and serves the
two. A header that announces nothing ends the connection. -/
def framed (s : Session σ) : Session σ × Bool :=
  let (header?, incoming) := recvExact size s.incoming
  match header? with
  | none => ({ s with incoming }, false)
  | some header =>
      match announces header with
      | none => ({ s with incoming }, false)
      | some n =>
          let (body?, incoming) := recvExact n incoming
          match body? with
          | none => ({ s with incoming }, false)
          | some body =>
              (serve process (frame header) { s with incoming } (request header body),
                sends s.outgoing.length)

theorem framed_steady :
    Steady (framed size announces process frame request sends) := by
  intro s t h
  obtain ⟨header?, cs, ds, hs, ht, hstream⟩ := h.stream.recvExact size
  simp only [framed, hs, ht]
  cases header? with
  | none => exact ⟨rfl, h.read hstream⟩
  | some header =>
      dsimp only
      cases announces header with
      | none => exact ⟨rfl, h.read hstream⟩
      | some n =>
          obtain ⟨body?, cs', ds', hs', ht', hstream'⟩ := hstream.recvExact n
          simp only [hs', ht']
          cases body? with
          | none => exact ⟨rfl, h.read hstream'⟩
          | some body =>
              exact ⟨congrArg (fun o => sends o.length) h.outgoing,
                (h.read hstream').serve _ _ _⟩

theorem framed_advances (hsize : 0 < size) :
    Advances (framed size announces process frame request sends) := by
  intro s bs h hgo
  rcases h.recvExact_cases size with ⟨a, b, cs, rfl, ha, hr, hb⟩ | ⟨-, hr⟩
  · simp only [framed, hr] at hgo ⊢
    cases hn : announces a with
    | none =>
        rw [hn] at hgo
        exact absurd hgo Bool.false_ne_true
    | some n =>
        rw [hn] at hgo
        dsimp only at hgo ⊢
        rcases hb.recvExact_cases n with ⟨p, rest, cs', rfl, hp, hr', hrest⟩ | ⟨-, hr'⟩
        · rw [hr']
          refine ⟨rest, hrest, ?_⟩
          simp only [List.length_append, ha]
          omega
        · rw [hr'] at hgo
          exact absurd hgo Bool.false_ne_true
  · simp only [framed, hr] at hgo
    exact absurd hgo Bool.false_ne_true

/-- A request that is its header and its body. -/
theorem framed_takes :
    Takes (framed size announces process frame (fun header body => header ++ body) sends) := by
  intro s bs h
  rcases h.recvExact_cases size with ⟨a, b, cs, rfl, -, hr, hb⟩ | ⟨-, hr⟩
  · simp only [framed, hr]
    cases announces a with
    | none =>
        exact ⟨[], (List.append_nil _).symm, List.nil_prefix,
          fun hgo => absurd hgo Bool.false_ne_true⟩
    | some n =>
        rcases hb.recvExact_cases n with ⟨p, rest, cs', rfl, -, hr', hrest⟩ | ⟨-, hr'⟩
        · simp only [hr']
          have hall : a ++ p ++ rest <+: a ++ (p ++ rest) :=
            ⟨[], (List.append_nil _).trans (List.append_assoc a p rest)⟩
          refine ⟨a ++ p, ?_, (List.prefix_append _ _).trans hall, fun _ => ⟨rest, hrest, hall⟩⟩
          rw [serve, List.flatten_append, List.flatten_singleton]
        · simp only [hr']
          exact ⟨[], (List.append_nil _).symm, List.nil_prefix,
            fun hgo => absurd hgo Bool.false_ne_true⟩
  · simp only [framed, hr]
    exact ⟨[], (List.append_nil _).symm, List.nil_prefix,
      fun hgo => absurd hgo Bool.false_ne_true⟩

theorem framed_answered {s : Session σ} (h : s.Answered) :
    (framed size announces process frame request sends s).1.Answered := by
  simp only [framed]
  split
  · exact h
  · split
    · exact h
    · split
      · exact h
      · exact h.serve _ _ _ _

variable {size announces process frame request sends} in
theorem framed_segmentationFree (hsize : 0 < size) (m : σ) :
    SegmentationFree (framed size announces process frame request sends) m :=
  segmentationFree (framed_steady size announces process frame request sends)
    (framed_advances size announces process frame request sends hsize) m

end Framed

/-! ## The replies to a list of messages -/

section Answers

variable {process : σ → List UInt8 → σ × List UInt8}
  {frame : β → List UInt8 → List UInt8} {wire request : β → List UInt8}
  {sends : Nat → Bool}

/-- A reply to each message, in the state the ones before it left. -/
def answers (process : σ → List UInt8 → σ × List UInt8)
    (frame : β → List UInt8 → List UInt8) (request : β → List UInt8) :
    σ → List β → List (List UInt8)
  | _, [] => []
  | m, b :: bs =>
      let r := process m (request b)
      frame b r.2 :: answers process frame request r.1 bs

theorem length_answers (m : σ) (bs : List β) :
    (answers process frame request m bs).length = bs.length := by
  induction bs generalizing m with
  | nil => rfl
  | cons b bs ih => exact congrArg (· + 1) (ih _)

/-- The `i`-th reply is one to the `i`-th message. -/
theorem answers_getElem? {m : σ} {bs : List β} {i : Nat} {b : β} {r : List UInt8}
    (hb : bs[i]? = some b) (hr : (answers process frame request m bs)[i]? = some r) :
    ∃ m', r = frame b (process m' (request b)).2 := by
  induction bs generalizing m i with
  | nil => cases hb
  | cons c bs ih =>
      cases i with
      | zero =>
          cases hb
          cases hr
          exact ⟨m, rfl⟩
      | succ i => exact ih hb hr

/-- With every message answered, the replies are sent in the order of the
messages, one to each. -/
theorem run_answers (hend : Ends turn) {bs : List β}
    (hturn : ∀ b ∈ bs, Delivers process frame wire request sends turn b)
    (hsends : ∀ i, sends i = true) {n : Nat} (hn : bs.length ≤ n) (s : Session σ)
    (h : Arrives s.incoming (bs.flatMap wire)) :
    (run turn n s).outgoing =
      s.outgoing ++ answers process frame request s.state bs := by
  induction bs generalizing n s with
  | nil =>
      rw [run_of_ends hend h.eq_nil]
      exact (List.append_nil _).symm
  | cons b bs ih =>
      obtain ⟨n, rfl⟩ : ∃ k, n = k + 1 := ⟨n - 1, by simp at hn; omega⟩
      rw [List.flatMap_cons] at h
      obtain ⟨cs, hrest, hb⟩ := hturn b List.mem_cons_self s _ h
      have hnext := ih (fun b' hb' => hturn b' (List.mem_cons_of_mem _ hb'))
        (by simpa using hn) (serve process (frame b) { s with incoming := cs } (request b))
        hrest
      rw [run, hb]
      show (if sends s.outgoing.length = true then _ else _ : Session σ).outgoing = _
      rw [if_pos (hsends _), hnext, serve, List.append_assoc]
      rfl

end Answers

end Session

end Net
