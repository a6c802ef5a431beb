import VPlc.Net.Segmentation
import VPlc.Proofs.TcpFraming
import VPlc.Proofs.XgtDrain

/-!
# The XGT stream, however it is cut

How many bytes belong to an XGT request is not known before the walk over its
blocks has come to its end, so the frame is not a header and what it announces.
But the walk fetches through the same loop as everyone else, and decides where to
go by what it has fetched (`Orderly`). So the requests, the replies and the end of
a connection are a matter of the bytes the client sends, here too, and whatever
the bytes are.

The requests are consecutive pieces of the stream (`drain_orderly`): what the
walk fetches beyond the announced length is taken off the stream once, and the
next header is looked for behind it. A walk that runs out of bytes loses the ones
it had begun to fetch, and the connection with them, but not before the request
has been processed as far as it came.
-/

namespace VPlc

open Bytes (le16)
open Net (Arrives SameStream Session)

namespace XgtServer

namespace Drain

/-- Two walks that have the same bytes, and the same to come. -/
structure Alike (bs : List UInt8) (d d' : Drain) : Prop where
  body : d.body = d'.body
  left : Arrives d.incoming bs
  right : Arrives d'.incoming bs

/-- What one walk does the other does, and they take what they fetch from the
front of what is to come. -/
def Orderly (w : Drain → Bool × Drain) : Prop :=
  ∀ bs d d', Alike bs d d' → (w d).1 = (w d').1 ∧ ∃ fetched bs',
    (w d).2.body = d.body ++ fetched ∧ fetched ++ bs' <+: bs ∧ Alike bs' (w d).2 (w d').2

theorem ensure_orderly (n : Nat) : Orderly (ensure n) := by
  rintro bs ⟨body, cs⟩ ⟨body', cs'⟩ ⟨rfl, hleft, hright⟩
  simp only [ensure]
  by_cases hlt : body.length < n
  · rw [if_pos hlt, if_pos hlt]
    rcases hleft.recvExact_cases (n - body.length) with
      ⟨extra, rest, ds, rfl, hlen, hr, hrest⟩ | ⟨hshort, hr⟩
    · obtain ⟨ds', hr', hrest'⟩ := hright.recvExact
      rw [hlen] at hr'
      rw [hr, hr']
      exact ⟨rfl, extra, rest, rfl, List.prefix_refl _, rfl, hrest, hrest'⟩
    · rw [hr, hright.recvExact_short hshort]
      exact ⟨rfl, [], [], (List.append_nil _).symm, List.nil_prefix, rfl, .nil, .nil⟩
  · rw [if_neg hlt, if_neg hlt]
    exact ⟨rfl, [], bs, (List.append_nil _).symm, List.prefix_refl _, rfl, hleft, hright⟩

theorem andThen_orderly {w : Drain → Bool × Drain} {f : Drain → Bool × Drain}
    (hw : Orderly w) (hf : ∀ body, ∃ g, Orderly g ∧ ∀ d : Drain, d.body = body → f d = g d) :
    Orderly fun d => andThen (w d) f := by
  intro bs d d' h
  obtain ⟨hsame, fetched, bs', hbody, hahead, halike⟩ := hw bs d d' h
  simp only [andThen, ← hsame]
  split
  · obtain ⟨g, hg, hfg⟩ := hf (w d).2.body
    rw [hfg _ rfl, hfg _ halike.body.symm]
    obtain ⟨hsame', fetched', bs'', hbody', hahead', halike'⟩ := hg bs' _ _ halike
    refine ⟨hsame', fetched ++ fetched', bs'', ?_, ?_, halike'⟩
    · rw [hbody', hbody, List.append_assoc]
    · rw [List.append_assoc]
      exact ((List.prefix_append_right_inj fetched).mpr hahead').trans hahead
  · exact ⟨hsame, fetched, bs', hbody, hahead, halike⟩

theorem done_orderly : Orderly fun d => (true, d) :=
  fun bs _ _ h => ⟨rfl, [], bs, (List.append_nil _).symm, List.prefix_refl _, h⟩

theorem field_orderly (len : UInt16 → UInt16) (offset : Nat) {k : Nat → Drain → Bool × Drain}
    (hk : ∀ offset, Orderly (k offset)) : Orderly (field len offset k) := by
  refine andThen_orderly (ensure_orderly _) fun body => ?_
  obtain ⟨n, hn⟩ : ∃ n, (len (le16 body offset)).toNat = n := ⟨_, rfl⟩
  refine ⟨fun d => andThen (d.ensure (offset + 2 + n)) (k (offset + 2 + n)),
    andThen_orderly (ensure_orderly _) fun _ => ⟨_, hk _, fun _ _ => rfl⟩, fun d hd => ?_⟩
  rw [hd, hn]

theorem readBlocks_orderly (b : Nat) : ∀ offset, Orderly (readBlocks b offset) := by
  induction b with
  | zero => exact fun _ => done_orderly
  | succ b ih => exact fun offset => field_orderly id offset ih

theorem writeBlocks_orderly (b : Nat) : ∀ offset, Orderly (writeBlocks b offset) := by
  induction b with
  | zero => exact fun _ => done_orderly
  | succ b ih =>
      exact fun offset => field_orderly id offset fun offset' =>
        field_orderly writeDataLen offset' ih

/-- A walk whose first step is fixed by the bytes it begins with. -/
theorem orderly_of_body {f : Drain → Bool × Drain}
    (h : ∀ body, ∃ g, Orderly g ∧ ∀ d : Drain, d.body = body → f d = g d) : Orderly f := by
  intro bs d d' halike
  obtain ⟨g, hg, hfg⟩ := h d.body
  rw [hfg d rfl, hfg d' halike.body.symm]
  exact hg bs d d' halike

theorem readRun_orderly : Orderly readRun := by
  refine orderly_of_body fun body => ?_
  refine ⟨_, ensure_orderly (12 + (le16 body 10).toNat + 2), fun d hd => ?_⟩
  rw [readRun, hd]

theorem writeRun_orderly : Orderly writeRun := by
  refine orderly_of_body fun body => ?_
  obtain ⟨n, hn⟩ : ∃ n, (le16 body 10).toNat = n := ⟨_, rfl⟩
  refine ⟨fun d => andThen (d.ensure (12 + n + 2)) fun d =>
      d.ensure (12 + n + 2 + (writeDataLen (le16 d.body (12 + n))).toNat), ?_, fun d hd => ?_⟩
  · refine andThen_orderly (ensure_orderly _) fun body' => ?_
    refine ⟨_, ensure_orderly (12 + n + 2 + (writeDataLen (le16 body' (12 + n))).toNat), ?_⟩
    rintro d rfl
    rfl
  · simp only [writeRun, hd, hn]

theorem drain_orderly : Orderly drain := by
  refine andThen_orderly (ensure_orderly 12) fun body => ?_
  obtain ⟨b, hb⟩ : ∃ b, (le16 body 8).toNat = b := ⟨_, rfl⟩
  refine ⟨if le16 body 4 = 0x0014 then
      if le16 body 2 = 0x0054 then readRun
      else if le16 body 2 = 0x0058 then writeRun else fun d => (true, d)
    else
      if le16 body 2 = 0x0054 then readBlocks b 10
      else if le16 body 2 = 0x0058 then writeBlocks b 10 else fun d => (true, d), ?_, ?_⟩
  · split
    · split
      · exact readRun_orderly
      split
      · exact writeRun_orderly
      · exact done_orderly
    · split
      · exact readBlocks_orderly b 10
      split
      · exact writeBlocks_orderly b 10
      · exact done_orderly
  · rintro d rfl
    simp only [hb]
    split
    · split
      · rfl
      split <;> rfl
    · split
      · rfl
      split <;> rfl

end Drain

/-! ## A turn -/

section Turn

variable (beyond : Nat → UInt8) (sends : Nat → Bool)

theorem turn_steady : Session.Steady (turn beyond sends) := by
  intro s t h
  obtain ⟨header?, cs, ds, hs, ht, hstream⟩ := h.stream.recvExact 18
  simp only [turn, hs, ht]
  cases header? with
  | none => exact ⟨rfl, h.read hstream⟩
  | some header =>
      dsimp only
      split
      · exact ⟨rfl, h.read hstream⟩
      · obtain ⟨body?, cs', ds', hs', ht', bs, hleft, hright⟩ :=
          hstream.recvExact (le16 header 16).toNat
        simp only [hs', ht']
        cases body? with
        | none => exact ⟨rfl, h.read ⟨bs, hleft, hright⟩⟩
        | some body =>
            obtain ⟨-, -, bs', -, -, hbody, hleft', hright'⟩ :=
              Drain.drain_orderly bs ⟨body, cs'⟩ ⟨body, ds'⟩ ⟨rfl, hleft, hright⟩
            dsimp only
            rw [hbody]
            exact ⟨congrArg (fun o => sends o.length) h.outgoing,
              (h.read ⟨bs', hleft', hright'⟩).serve _ _ _⟩

/-- A request is its header, its announced body, and what the walk has fetched. -/
theorem turn_takes_header {s : Session PlcMemory} {bs : List UInt8}
    (h : Arrives s.incoming bs) :
    (turn beyond sends s).2 = false ∧ (turn beyond sends s).1.requests = s.requests ∨
      ∃ header body rest, HeaderOk header ∧ header.length = 18 ∧
        (turn beyond sends s).1.requests = s.requests ++ [header ++ body] ∧
        Arrives (turn beyond sends s).1.incoming rest ∧ header ++ body ++ rest <+: bs := by
  rcases h.recvExact_cases 18 with ⟨a, b, cs, rfl, hlen, hr, hb⟩ | ⟨-, hr⟩
  · simp only [turn, hr]
    by_cases hok : HeaderOk a
    · rw [if_neg (not_not.mpr hok)]
      rcases hb.recvExact_cases (le16 a 16).toNat with
        ⟨p, rest, cs', rfl, -, hr', hrest⟩ | ⟨-, hr'⟩
      · simp only [hr']
        obtain ⟨-, fetched, bs', hbody, hahead, -, hleft, -⟩ :=
          Drain.drain_orderly rest ⟨p, cs'⟩ ⟨p, cs'⟩ ⟨rfl, hrest, hrest⟩
        refine .inr ⟨a, p ++ fetched, bs', hok, hlen, ?_, hleft, ?_⟩
        · rw [Session.serve, hbody]
        · rw [List.append_assoc, List.append_assoc]
          exact (List.prefix_append_right_inj a).mpr ((List.prefix_append_right_inj p).mpr hahead)
      · simp only [hr']
        exact .inl ⟨trivial, trivial⟩
    · rw [if_pos hok]
      exact .inl ⟨rfl, rfl⟩
  · simp only [turn, hr]
    exact .inl ⟨trivial, trivial⟩

theorem turn_takes : Session.Takes (turn beyond sends) := by
  intro s bs h
  rcases turn_takes_header beyond sends h with ⟨hend, hsame⟩ |
    ⟨header, body, rest, -, -, hrequests, hrest, hahead⟩
  · refine ⟨[], ?_, List.nil_prefix, fun hgo => ?_⟩
    · rw [hsame, List.append_nil]
    · rw [hend] at hgo
      cases hgo
  · refine ⟨header ++ body, ?_, (List.prefix_append _ _).trans hahead,
      fun _ => ⟨rest, hrest, hahead⟩⟩
    rw [hrequests, List.flatten_append, List.flatten_singleton]

theorem turn_advances : Session.Advances (turn beyond sends) := by
  intro s bs h hgo
  rcases turn_takes_header beyond sends h with ⟨hend, -⟩ |
    ⟨header, body, rest, -, hlen, -, hrest, hahead⟩
  · rw [hend] at hgo
    cases hgo
  · refine ⟨rest, hrest, ?_⟩
    have hle := hahead.length_le
    rw [List.length_append, List.length_append, hlen] at hle
    omega

theorem turn_answered {s : Session PlcMemory} (h : s.Answered) :
    (turn beyond sends s).1.Answered := by
  simp only [turn]
  split
  · exact h
  · split
    · exact h
    · split
      · exact h
      · exact h.serve _ _ _ _

end Turn

end XgtServer

/-- On an XGT connection the requests, the replies, the memory and the end depend on
the bytes the client sends and not on how `recv` hands them over. On an XGT connection and
on an MC connection, the requests are consecutive pieces of the stream from its
beginning on, and each gets one reply. -/
theorem native_framing (beyond : Nat → UInt8) (sends : Nat → Bool) (m : PlcMemory) :
    Session.SegmentationFree (XgtServer.turn beyond sends) m ∧
    ∀ stream pieces n, Arrives pieces stream →
      ((XgtServer.handleClient beyond sends n m pieces).requests.flatten <+: stream ∧
        (XgtServer.handleClient beyond sends n m pieces).outgoing.length =
          (XgtServer.handleClient beyond sends n m pieces).requests.length) ∧
      (McServer.handleClient sends n m pieces).requests.flatten <+: stream ∧
        (McServer.handleClient sends n m pieces).outgoing.length =
          (McServer.handleClient sends n m pieces).requests.length := by
  have hpieces {turn : Session PlcMemory → Session PlcMemory × Bool}
      (htakes : Session.Takes turn) (hanswers : ∀ s, s.Answered → (turn s).1.Answered)
      {stream : List UInt8} {pieces : List (List UInt8)} (n : Nat) (h : Arrives pieces stream) :
      (Session.run turn n (Session.start m pieces)).requests.flatten <+: stream ∧
        (Session.run turn n (Session.start m pieces)).Answered := by
    obtain ⟨taken, hrequests, hahead⟩ :=
      Session.run_takes htakes n (s := Session.start m pieces) h
    rw [hrequests]
    exact ⟨hahead, Session.run_inv hanswers n rfl⟩
  refine ⟨Session.segmentationFree (XgtServer.turn_steady beyond sends)
    (XgtServer.turn_advances beyond sends) m, fun stream pieces n h => ⟨?_, ?_⟩⟩
  · exact hpieces (XgtServer.turn_takes beyond sends)
      (fun _ hs => XgtServer.turn_answered beyond sends hs) n h
  · rw [McServer.handleClient, McServer.turn_eq_framed]
    exact hpieces (Session.framed_takes _ _ _ _ _) (fun _ hs => Session.framed_answered _ _ _ _ _ _ hs)
      n h

open XgtServer (shortRead) in
/-- A read whose length field falls two bytes short, cut inside its body. -/
theorem native_framing_shortRead :
    let s := XgtServer.handleClient (fun _ => 0) sendsAll 2 PlcMemory.default
      [shortRead.wire.take 20, shortRead.wire.drop 20]
    s.requests.flatten <+: shortRead.wire ∧ s.outgoing.length = s.requests.length := by
  have h : Arrives [shortRead.wire.take 20, shortRead.wire.drop 20] shortRead.wire := by
    refine ⟨rfl, ?_⟩
    intro c hc
    rcases List.mem_cons.mp hc with rfl | hc
    · exact List.cons_ne_nil _ _
    · rw [List.mem_singleton.mp hc]
      exact List.cons_ne_nil _ _
  exact ((native_framing (fun _ => 0) sendsAll PlcMemory.default).2 _ _ 2 h).1

end VPlc
