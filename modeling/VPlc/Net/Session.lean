import Mathlib.Data.List.Basic

/-!
# Sessions over a byte stream

A server that reads a stream socket sees it through `recv`, which hands over the
next few bytes, as many as happen to be there. What a connection will deliver is
therefore a list of chunks here: one call of `recv` takes from the first of
them, never more than it was asked for, and an empty chunk is a call that
reports an error or a closed connection.

`Arrives cs bs` says that the chunks `cs` are the bytes `bs` cut up somehow, and
`Arrives.recvExact` is all that is left of the cutting: a loop that reads until
it has enough gets exactly the bytes it waits for.

Above it is the loop of a server. It takes one turn after another until a turn
says that the connection is over, and `run_delivers` turns a lemma about one
message into a theorem about a whole connection.
-/

namespace Net

variable {α : Type}

/-! ## Reading -/

/-- One call of `recv` that asks for up to `want` bytes. -/
def recv (want : Nat) : List (List α) → List α × List (List α)
  | [] => ([], [])
  | c :: cs => if c.length ≤ want then (c, cs) else (c.take want, c.drop want :: cs)

/-- Call `recv` until `want` bytes are there; `none` if a call fails first. -/
def recvExact : Nat → List (List α) → Option (List α) × List (List α)
  | 0, cs => (some [], cs)
  | _ + 1, [] => (none, [])
  | want + 1, c :: cs =>
      if c.isEmpty then (none, cs)
      else if c.length ≤ want + 1 then
        let r := recvExact (want + 1 - c.length) cs
        (r.1.map (c ++ ·), r.2)
      else (some (c.take (want + 1)), c.drop (want + 1) :: cs)

theorem recvExact_eq (want : Nat) (cs : List (List α)) :
    recvExact (want + 1) cs =
      let r := recv (want + 1) cs
      if r.1.isEmpty then (none, r.2)
      else
        let r' := recvExact (want + 1 - r.1.length) r.2
        (r'.1.map (r.1 ++ ·), r'.2) := by
  cases cs with
  | nil => rfl
  | cons c cs =>
      by_cases hlen : c.length ≤ want + 1
      · simp only [recvExact, recv, if_pos hlen]
      · have hne : ¬ c.isEmpty = true := by
          rw [List.isEmpty_iff]
          rintro rfl
          exact hlen (Nat.zero_le _)
        have htake : (c.take (want + 1)).length = want + 1 := by
          rw [List.length_take]; omega
        have hpos : ¬ (c.take (want + 1)).isEmpty = true := by
          rw [List.isEmpty_iff, ← List.length_eq_zero_iff, htake]
          omega
        simp only [recvExact, recv, if_neg hlen, if_neg hne, if_neg hpos, htake,
          Nat.sub_self, Option.map_some, List.append_nil]

/-- The chunks are the bytes, cut up somehow, and no call fails. -/
structure Arrives (cs : List (List α)) (bs : List α) : Prop where
  flatten : cs.flatten = bs
  nonempty : ∀ c ∈ cs, c ≠ []

theorem Arrives.nil : Arrives ([] : List (List α)) [] := ⟨rfl, by simp⟩

theorem Arrives.cons {c : List α} {cs : List (List α)} {bs : List α}
    (hc : c ≠ []) (h : Arrives cs bs) : Arrives (c :: cs) (c ++ bs) where
  flatten := by rw [List.flatten_cons, h.flatten]
  nonempty := List.forall_mem_cons.mpr ⟨hc, h.nonempty⟩

theorem Arrives.eq_nil {cs : List (List α)} (h : Arrives cs []) : cs = [] := by
  cases cs with
  | nil => rfl
  | cons c cs =>
      have hflat := h.flatten
      rw [List.flatten_cons, List.append_eq_nil_iff] at hflat
      exact absurd hflat.1 (h.nonempty c List.mem_cons_self)

/-- What is waited for is what arrives, however it is cut. -/
theorem Arrives.recvExact {cs : List (List α)} {a b : List α}
    (h : Arrives cs (a ++ b)) :
    ∃ cs', recvExact a.length cs = (some a, cs') ∧ Arrives cs' b := by
  induction cs generalizing a with
  | nil =>
      have hnil : a ++ b = [] := h.flatten.symm
      obtain ⟨rfl, rfl⟩ := List.append_eq_nil_iff.mp hnil
      exact ⟨[], rfl, h⟩
  | cons c cs ih =>
      have hc : c ≠ [] := h.nonempty c List.mem_cons_self
      have hne : ¬ c.isEmpty = true := by rwa [List.isEmpty_iff]
      have hcs : ∀ d ∈ cs, d ≠ [] := fun d hd =>
        h.nonempty d (List.mem_cons_of_mem _ hd)
      have hflat : c ++ cs.flatten = a ++ b := h.flatten
      have hpre : c <+: a ++ b := ⟨_, hflat⟩
      rcases Nat.eq_zero_or_pos a.length with ha | ha
      · obtain rfl := List.length_eq_zero_iff.mp ha
        exact ⟨c :: cs, rfl, h⟩
      · obtain ⟨want, hwant⟩ : ∃ want, a.length = want + 1 := ⟨a.length - 1, by omega⟩
        by_cases hle : c.length ≤ a.length
        · -- the whole chunk is wanted, and `d` after it
          obtain ⟨d, rfl⟩ :=
            List.prefix_of_prefix_length_le hpre (List.prefix_append a b) hle
          rw [List.append_assoc] at hflat
          obtain ⟨cs', hrecv, hrest⟩ := ih ⟨List.append_cancel_left hflat, hcs⟩
          refine ⟨cs', ?_, hrest⟩
          rw [hwant, Net.recvExact, if_neg hne, ← hwant, if_pos hle,
            List.length_append, Nat.add_sub_cancel_left, hrecv]
          rfl
        · -- the chunk reaches `d` bytes into what follows
          obtain ⟨d, rfl⟩ :=
            List.prefix_of_prefix_length_le (List.prefix_append a b) hpre (by omega)
          have hd : d ≠ [] := by
            rintro rfl
            exact hle (by simp)
          rw [List.append_assoc] at hflat
          refine ⟨d :: cs, ?_, ?_⟩
          · rw [hwant, Net.recvExact, if_neg hne, ← hwant, if_neg hle,
              List.take_left, List.drop_left]
          · rw [← List.append_cancel_left hflat]
            exact Arrives.cons hd ⟨rfl, hcs⟩

theorem recvExact_length {cs cs' : List (List α)} {bs : List α} {want : Nat}
    (h : recvExact want cs = (some bs, cs')) : bs.length = want := by
  induction cs generalizing want bs cs' with
  | nil =>
      cases want with
      | zero =>
          cases h
          rfl
      | succ want => cases h
  | cons c cs ih =>
      cases want with
      | zero =>
          cases h
          rfl
      | succ want =>
          rw [recvExact] at h
          split at h
          · cases h
          split at h
          · next hle =>
              rcases hr : recvExact (want + 1 - c.length) cs with ⟨_ | rest, cs''⟩
              · rw [hr] at h
                cases h
              · rw [hr] at h
                cases h
                rw [List.length_append, ih hr]
                omega
          · next hlt =>
              cases h
              rw [List.length_take]
              omega

/-! ## Serving -/

/-- A connection while it is served: what the server knows, what `recv` will
find, what it has taken for requests so far, and what it has given to `send`. -/
structure Session (σ : Type) where
  state : σ
  incoming : List (List UInt8)
  requests : List (List UInt8)
  outgoing : List (List UInt8)

namespace Session

variable {σ β : Type}

/-- A connection just accepted. -/
def start (state : σ) (incoming : List (List UInt8)) : Session σ :=
  ⟨state, incoming, [], []⟩

/-- A request is processed and answered. -/
def serve (process : σ → List UInt8 → σ × List UInt8)
    (frame : List UInt8 → List UInt8) (s : Session σ) (request : List UInt8) :
    Session σ :=
  let r := process s.state request
  { s with
    state := r.1
    requests := s.requests ++ [request]
    outgoing := s.outgoing ++ [frame r.2] }

/-- Turn after turn, until one ends the connection. The server may be stopped
at any time: `turns` is how often the loop finds it running. -/
def run (turn : Session σ → Session σ × Bool) : Nat → Session σ → Session σ
  | 0, s => s
  | n + 1, s =>
      let r := turn s
      if r.2 then run turn n r.1 else r.1

section Run

/-! A turn takes one message off the stream, whatever follows it, and answers
it; the `k`-th call of `send` succeeds or not as `sends k` says. -/

variable {process : σ → List UInt8 → σ × List UInt8}
  {frame : β → List UInt8 → List UInt8} {wire request : β → List UInt8}
  {sends : Nat → Bool} {turn : Session σ → Session σ × Bool} {Ok : β → Prop}

/-- What a turn does with a message at the head of the stream. -/
def Delivers (process : σ → List UInt8 → σ × List UInt8)
    (frame : β → List UInt8 → List UInt8) (wire request : β → List UInt8)
    (sends : Nat → Bool) (turn : Session σ → Session σ × Bool) (b : β) : Prop :=
  ∀ s rest, Arrives s.incoming (wire b ++ rest) →
    ∃ cs, Arrives cs rest ∧
      turn s = (serve process (frame b) { s with incoming := cs } (request b),
        sends s.outgoing.length)

/-- What a turn does at the end of the stream. -/
def Ends (turn : Session σ → Session σ × Bool) : Prop :=
  ∀ s, s.incoming = [] → turn s = (s, false)

theorem run_of_ends (hend : Ends turn) {s : Session σ} (hs : s.incoming = [])
    (n : Nat) : run turn n s = s := by
  cases n with
  | zero => rfl
  | succ n => simp only [run, hend s hs, Bool.false_eq_true, if_false]

/-- A server that is stopped early, or that cannot send, has still processed
the first so many requests and nothing else. -/
theorem run_prefix (hend : Ends turn) {bs : List β}
    (hturn : ∀ b ∈ bs, Delivers process frame wire request sends turn b) (n : Nat)
    (s : Session σ) (h : Arrives s.incoming (bs.flatMap wire)) :
    ∃ k, (run turn n s).requests = s.requests ++ (bs.map request).take k := by
  induction bs generalizing n s with
  | nil =>
      rw [run_of_ends hend h.eq_nil]
      exact ⟨0, by simp⟩
  | cons b bs ih =>
      cases n with
      | zero => exact ⟨0, by simp [run]⟩
      | succ n =>
          rw [List.flatMap_cons] at h
          obtain ⟨cs, hrest, hb⟩ := hturn b List.mem_cons_self s _ h
          rw [run, hb]
          cases hsend : sends s.outgoing.length with
          | false => exact ⟨1, by simp [serve]⟩
          | true =>
              obtain ⟨k, hk⟩ := ih
                (fun b' hb' => hturn b' (List.mem_cons_of_mem _ hb')) n
                (serve process (frame b) { s with incoming := cs } (request b)) hrest
              refine ⟨k + 1, ?_⟩
              rw [if_pos rfl, hk]
              simp [serve]

/-- With nothing in the way, a connection delivers its messages: each once, in
order, whole. -/
theorem run_delivers (hend : Ends turn) {bs : List β}
    (hturn : ∀ b ∈ bs, Delivers process frame wire request sends turn b) {n : Nat}
    (hn : bs.length ≤ n) (s : Session σ)
    (hsends : ∀ i, i + 1 < bs.length → sends (s.outgoing.length + i) = true)
    (h : Arrives s.incoming (bs.flatMap wire)) :
    (run turn n s).requests = s.requests ++ bs.map request ∧
      (run turn n s).state =
        (bs.map request).foldl (fun m r => (process m r).1) s.state := by
  induction bs generalizing n s with
  | nil =>
      rw [run_of_ends hend h.eq_nil]
      exact ⟨by simp, rfl⟩
  | cons b bs ih =>
      obtain ⟨n, rfl⟩ : ∃ k, n = k + 1 := ⟨n - 1, by simp at hn; omega⟩
      rw [List.flatMap_cons] at h
      obtain ⟨cs, hrest, hb⟩ := hturn b List.mem_cons_self s _ h
      rw [run, hb]
      have hlast : bs = [] ∨ sends s.outgoing.length = true := by
        cases bs with
        | nil => exact Or.inl rfl
        | cons b' bs => exact Or.inr (hsends 0 (by simp))
      have hnext := ih (fun b' hb' => hturn b' (List.mem_cons_of_mem _ hb'))
        (n := n) (by simp at hn; omega)
        (serve process (frame b) { s with incoming := cs } (request b))
        (fun i hi => by
          have := hsends (i + 1) (by simp; omega)
          simpa [serve, Nat.add_assoc, Nat.add_comm 1 i] using this) hrest
      cases hsend : sends s.outgoing.length with
      | true =>
          refine ⟨?_, hnext.2⟩
          rw [if_pos rfl, hnext.1]
          simp [serve]
      | false =>
          obtain rfl : bs = [] := hlast.resolve_right (by simp [hsend])
          exact ⟨by simp [serve], rfl⟩

theorem start_delivers (hend : Ends turn) {bs : List β}
    (hturn : ∀ b ∈ bs, Delivers process frame wire request sends turn b) {n : Nat}
    (hn : bs.length ≤ n) (state : σ) {incoming : List (List UInt8)}
    (hsends : ∀ i, i + 1 < bs.length → sends i = true)
    (h : Arrives incoming (bs.flatMap wire)) :
    (run turn n (start state incoming)).requests = bs.map request ∧
      (run turn n (start state incoming)).state =
        (bs.map request).foldl (fun m r => (process m r).1) state := by
  refine run_delivers hend hturn hn (start state incoming) (fun i hi => ?_) h
  rw [start, List.length_nil, Nat.zero_add]
  exact hsends i hi

end Run

end Session

end Net
