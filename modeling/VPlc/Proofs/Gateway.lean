import VPlc.Core.Scheduler
import VPlc.Loop.Each
import VPlc.Proofs.MappingStar
import VPlc.Proofs.Messages

/-!
# The runtime as a gateway

Without a logic the runtime is a register map for its protocols, and the mapping
rules are what joins them. A rule list that is a star for each of its sources
makes one register of every star: what a client of any protocol writes to one of
its cells, clients of all protocols are told after the next scan
(`gateway_relays`). Clients of one star have to leave a scan between writes to
different cells of it; those of different stars need not know of each other.

The register is `Mirror.Register`, and the library's `Shows` carries the proof.
What is left is that requests put the values they carry, and that a scan is two
passes.
-/

namespace VPlc

open Mirror (Link Register Shows)

/-- The loader when no library is asked for. -/
def PlcLoader.passThrough (σ : Type) : PlcLoader σ := (PlcLoader.loadLibrary (fun _ => none) "").1

namespace Gateway

variable {σ : Type} (beyond : Nat → UInt8)

/-- A request is carried out, or the scheduler runs one iteration. -/
inductive Event
  | request (w : Work)
  | scan

def exec (s : Plant σ) : Event → Plant σ
  | .request w => { s with mem := (w.process beyond s.mem).1 }
  | .scan => PlcScheduler.scan (PlcLoader.passThrough σ) s

instance (m : PlcMemory) (r : MappingRule) (k : Option Cell) : Decidable (InStar m r k) :=
  inferInstanceAs (Decidable (_ ∨ _))

/-- What the event means to the star of `r`, if that is one register: a request
writes to it what it stores in its cells. -/
def hear (m : PlcMemory) (r : MappingRule) (s : Plant σ) (g : Register (Option Cell) UInt16) :
    Event → Option (Register (Option Cell) UInt16)
  | .request w => (named (w.stores beyond s.mem)).foldlM (Register.hear (InStar m r)) g
  | .scan => some g.settle

/-- The register after a run, if the star has been one all the time. -/
def listen (m : PlcMemory) (r : MappingRule) :
    Plant σ → Register (Option Cell) UInt16 → List Event →
      Option (Register (Option Cell) UInt16)
  | _, g, [] => some g
  | s, g, e :: es => do listen m r (exec beyond s e) (← hear beyond m r s g e) es

/-! ## The star of a rule -/

theorem inStar_iff {m : PlcMemory} {r : MappingRule} (k : Option Cell) :
    InStar m r k ↔ Mirror.Around (m.links m.mappings) (m.cell r.src) k := by
  refine or_congr_right ⟨?_, ?_⟩
  · rintro ⟨q, hq, hsrc, rfl⟩
    exact ⟨q.link m, List.mem_map_of_mem hq, hsrc, rfl⟩
  · rintro ⟨l, hl, hsrc, rfl⟩
    obtain ⟨q, hq, rfl⟩ := List.mem_map.mp hl
    exact ⟨q, hq, hsrc, rfl⟩

/-- The plant at the top of the loop, its rules and areas as in `m`, and the star
of `r` as the register `g`. -/
structure Relays (m : PlcMemory) (r : MappingRule) (g : Register (Option Cell) UInt16)
    (s : Plant σ) : Prop where
  phase : s.phase = .inputs
  size : ∀ a, s.mem.size a = m.size a
  star : StarShaped s.mem s.mem.mappings
  mem : ∃ q ∈ s.mem.mappings, q.src = r.src
  own : ∀ k, InStar m r k ↔ InStar s.mem r k
  shows : ∃ old, Shows s.mem.view (s.mem.links s.mem.mappings) (s.mem.cell r.src) g old

theorem inStar_congr {m m' : PlcMemory} (hsize : ∀ a, m'.size a = m.size a)
    (hrefs : m'.mappings.map MappingRule.refs = m.mappings.map MappingRule.refs)
    (r : MappingRule) (k : Option Cell) : InStar m' r k ↔ InStar m r k := by
  have hcell (ref : MemoryRef) : m'.cell ref = m.cell ref := PlcMemory.cell_congr ref hsize
  have hrules {ps qs : List MappingRule}
      (hrefs : ps.map MappingRule.refs = qs.map MappingRule.refs)
      (h : ∃ q ∈ ps, m.cell q.src = m.cell r.src ∧ k = m.cell q.dst) :
      ∃ q ∈ qs, m.cell q.src = m.cell r.src ∧ k = m.cell q.dst := by
    obtain ⟨q, hq, hsrc, hdst⟩ := h
    obtain ⟨q', hq', hs, hd⟩ := PlcMemory.mem_of_refs hrefs hq
    exact ⟨q', hq', by rw [hs, hsrc], by rw [hd, hdst]⟩
  simp only [InStar, hcell]
  exact or_congr_right ⟨hrules hrefs, hrules hrefs.symm⟩

section Steps

variable {m : PlcMemory} {r : MappingRule} {g g' : Register (Option Cell) UInt16}
  {s : Plant σ}

theorem Relays.start (hphase : s.phase = .inputs) (hstar : StarShaped s.mem s.mem.mappings)
    (hsync : ∀ r ∈ s.mem.mappings, r.InSync s.mem) (hr : r ∈ s.mem.mappings) :
    Relays s.mem r ⟨s.mem.readValue r.src, none⟩ s where
  phase := hphase
  size _ := rfl
  star := hstar
  mem := ⟨r, hr, rfl⟩
  own _ := Iff.rfl
  shows := by
    have hsettled := PlcMemory.inSync_iff_settled.mp hsync
    rw [PlcMemory.readValue_view]
    exact ⟨_, Shows.of_settled fun l hl _ => hsettled l hl⟩

theorem Relays.request {beyond : Nat → UInt8} (h : Relays m r g s) {w : Work}
    (hhear : (named (w.stores beyond s.mem)).foldlM (Register.hear (InStar m r)) g = some g') :
    Relays m r g' (exec beyond s (.request w)) := by
  obtain ⟨hview, hsize, hmappings⟩ := w.process_stores beyond s.mem
  obtain ⟨old, hshows⟩ := h.shows
  rw [Gateway.exec]
  obtain ⟨m', hm'⟩ : ∃ m', (w.process beyond s.mem).1 = m' := ⟨_, rfl⟩
  rw [hm'] at hview hsize hmappings ⊢
  refine ⟨h.phase, fun a => (hsize a).trans (h.size a), ?_, ?_, fun k => ?_, old, ?_⟩ <;>
    dsimp only
  · rw [hmappings]
    exact h.star.of_size hsize
  · rw [hmappings]
    exact h.mem
  · exact (h.own k).trans (inStar_congr hsize (congrArg _ hmappings) r k).symm
  · rw [hview, hmappings, PlcMemory.links_congr hsize, PlcMemory.cell_congr r.src hsize]
    exact hshows.put (fun k => (h.own k).trans (inStar_iff k)) hhear

/-- A scan without a logic is two passes. -/
theorem scan_passThrough (hphase : s.phase = .inputs) :
    (PlcScheduler.scan (PlcLoader.passThrough σ) s).mem = s.mem.syncMappings.syncMappings ∧
      (PlcScheduler.scan (PlcLoader.passThrough σ) s).phase = .inputs := by
  obtain ⟨mem, dll, phase, tick⟩ := s
  cases hphase
  exact ⟨rfl, rfl⟩

theorem Relays.scan (beyond : Nat → UInt8) (h : Relays m r g s) :
    Relays m r g.settle (exec beyond s .scan) := by
  obtain ⟨old, hshows⟩ := h.shows
  obtain ⟨hmem, hphase⟩ := scan_passThrough h.phase
  obtain ⟨q, hq, hsrc⟩ := h.mem
  have hleaf : ∀ l ∈ s.mem.links s.mem.mappings, l.dst ≠ s.mem.cell r.src := by
    intro l hl
    obtain ⟨p, hp, rfl⟩ := List.mem_map.mp hl
    rw [← hsrc]
    exact h.star.leaf p hp q hq
  have hpasses := hshows.passes h.star.star hleaf
  rw [Mirror.passes_succ, Mirror.passes_succ, Mirror.passes_zero] at hpasses
  dsimp only at hpasses
  rw [← h.star.view_after, ← h.star.links_after, ← h.star.after.view_after,
    ← h.star.after.links_after] at hpasses
  have hrefs : s.mem.syncMappings.syncMappings.mappings.map MappingRule.refs =
      s.mem.mappings.map MappingRule.refs :=
    s.mem.syncMappings.refs_syncMappings.trans s.mem.refs_syncMappings
  have hsize (a : Area) : s.mem.syncMappings.syncMappings.size a = s.mem.size a := by
    rw [PlcMemory.size_syncMappings, PlcMemory.size_syncMappings]
  obtain ⟨q', hq', hs, -⟩ := PlcMemory.mem_of_refs hrefs.symm hq
  obtain ⟨s', hs'⟩ : ∃ s', PlcScheduler.scan (PlcLoader.passThrough σ) s = s' := ⟨_, rfl⟩
  rw [exec, hs']
  rw [hs'] at hmem hphase
  refine ⟨hphase, ?_, ?_, ?_, ?_, g.value, ?_⟩ <;> rw [hmem]
  · exact fun a => (hsize a).trans (h.size a)
  · exact h.star.after.after
  · exact ⟨q', hq', hs.trans hsrc⟩
  · exact fun k => (h.own k).trans (inStar_congr hsize hrefs r k).symm
  · rw [PlcMemory.cell_congr r.src hsize]
    exact hpasses

theorem Relays.exec {beyond : Nat → UInt8} (h : Relays m r g s) {e : Event}
    (hhear : hear beyond m r s g e = some g') : Relays m r g' (exec beyond s e) := by
  cases e with
  | request w => exact h.request hhear
  | scan =>
      obtain rfl := Option.some.inj hhear
      exact h.scan beyond

theorem Relays.run {beyond : Nat → UInt8} (h : Relays m r g s) {es : List Event}
    (hlisten : listen beyond m r s g es = some g') :
    Relays m r g' (es.foldl (Gateway.exec beyond) s) := by
  induction es generalizing s g with
  | nil =>
      obtain rfl := Option.some.inj hlisten
      exact h
  | cons e es ih =>
      obtain ⟨g₁, hfirst, hrest⟩ := Option.bind_eq_some_iff.mp hlisten
      exact ih (h.exec hfirst) hrest

end Steps

/-- The runtime without a logic, its rules a star each and in sync; any requests
of three protocols and any scans. If the star of a rule is one register in that
run, and nothing is pending there at the end, then whoever asks for one of its
cells, in whichever protocol, is told the register's value. -/
theorem gateway_relays {s : Plant σ} (hphase : s.phase = .inputs)
    (hstar : StarShaped s.mem s.mem.mappings)
    (hsync : ∀ r ∈ s.mem.mappings, r.InSync s.mem) {r : MappingRule}
    (hr : r ∈ s.mem.mappings) {es : List Event} {g : Register (Option Cell) UInt16}
    (hlisten : listen beyond s.mem r s ⟨s.mem.readValue r.src, none⟩ es = some g)
    (hpending : g.pending = none) {w : Work} {cs : List Cell}
    (hasks : w.Asks (es.foldl (exec beyond) s).mem cs) {i : Nat} {c : Cell}
    (hc : cs[i]? = some c) (hin : InStar s.mem r (some c)) :
    (w.told (w.process beyond (es.foldl (exec beyond) s).mem).2)[i]? = some g.value := by
  have hrelays := (Relays.start hphase hstar hsync hr).run hlisten
  obtain ⟨old, hshows⟩ := hrelays.shows
  have hread := hshows.read hpending ((inStar_iff _).mp ((hrelays.own _).mp hin))
  rw [(hasks.told beyond).2, List.getElem?_map, hc, Option.map_some]
  exact congrArg some hread

/-! ## From Modbus to MELSEC -/

/-- The runtime with the rules of the fan-out. -/
def fanOutPlant : Plant Unit :=
  ⟨fanOut, ⟨⟨fun _ => 0, fun _ => 0, fun _ => 0, fun _ => 0⟩, ()⟩, .inputs, 0⟩

/-- Register 0 is set to 7. -/
def setHr0 : List UInt8 := [0x06, 0, 0, 0, 7]

/-- Words are set to 5 from `D1023` on, and there is one more than `D` has. -/
def setPastD : List UInt8 :=
  [0x50, 0, 0, 0xFF, 0xFF, 3, 0, 16, 0, 16, 0, 0x01, 0x14, 0, 0, 0xFF, 3, 0, 0xA8, 2, 0, 5, 0,
    5, 0]

/-- `D0` is asked for. -/
def readD0 : List UInt8 :=
  [0x50, 0, 0, 0xFF, 0xFF, 3, 0, 12, 0, 16, 0, 0x01, 0x04, 0, 0, 0, 0, 0, 0xA8, 1, 0]

def setAndScan : List Event := [.request (.modbus setHr0), .request (.mc setPastD), .scan]

theorem setHr0_stores {m : PlcMemory} (h : 0 < m.size .hr) :
    (Work.modbus setHr0).stores (fun _ => 0) m = [(⟨.hr, 0⟩, 7)] := by
  have hin : ¬ (0 : UInt16).toNat ≥ m.getHoldingRegistersSize := Nat.not_le.mpr h
  have hcell : m.cell (Area.hr.ref 0) = some ⟨.hr, 0⟩ :=
    (PlcMemory.cell_eq_some m).mpr ⟨rfl, rfl, h⟩
  have hprogram : (Work.modbus setHr0).stores (fun _ => 0) m =
      Threads.trail Call.exec (fun c m => c.stores m)
        (if (0 : UInt16).toNat ≥ m.getHoldingRegistersSize then
          pure (ModbusServer.makeExceptionResponse 0x06 0x02)
        else do
          let _ ← (Call.writeHoldingRegister 0 7).perform
          pure (ModbusServer.echo setHr0)) m := rfl
  rw [hprogram, if_neg hin]
  show m.storesAt (Area.hr.ref 0) 7 ++ [] = _
  rw [PlcMemory.storesAt, hcell]
  rfl

theorem setPastD_stores (m : PlcMemory) :
    (Work.mc setPastD).stores (fun _ => 0) m = [(⟨.mcD, 1023⟩, 5)] := by
  rfl

theorem size_fanOut : fanOut.size .hr = 1024 := by
  rw [fanOut, PlcMemory.size_syncMappings]
  exact Array.size_replicate

theorem inStar_fanOut (k : Option Cell) :
    InStar fanOut fanOutRule k ↔
      k = some ⟨.hr, 0⟩ ∨ k = some ⟨.s7Db1, 0⟩ ∨ k = some ⟨.mcD, 0⟩ := by
  obtain ⟨hsrc, hdb, hd⟩ := fanOut_cells
  have hfirst : fanOut.cell fanOutRule.src = some ⟨.hr, 0⟩ := hsrc
  have hsecond : fanOut.cell fanOutRule.dst = some ⟨.s7Db1, 0⟩ := hdb
  rw [InStar, fanOut_mappings]
  simp [hfirst, hsecond, hsrc, hd]

theorem setAndScan_listen :
    listen (fun _ => 0) fanOut fanOutRule fanOutPlant ⟨fanOut.readValue hr0Ref, none⟩ setAndScan =
      some ⟨7, none⟩ := by
  have hsize : 0 < fanOut.size .hr := by
    rw [size_fanOut]
    decide
  have hset : hear (fun _ => 0) fanOut fanOutRule fanOutPlant ⟨fanOut.readValue hr0Ref, none⟩
      (.request (.modbus setHr0)) = some ⟨7, some (some ⟨.hr, 0⟩)⟩ := by
    have hin : InStar fanOut fanOutRule (some ⟨.hr, 0⟩) := (inStar_fanOut _).mpr (.inl rfl)
    rw [hear, show fanOutPlant.mem = fanOut from rfl, setHr0_stores hsize, named, List.map_cons,
      List.map_nil, List.foldlM_cons, Register.hear, if_pos hin]
    rfl
  have hpast (s : Plant Unit) (g : Register (Option Cell) UInt16) :
      hear (fun _ => 0) fanOut fanOutRule s g (.request (.mc setPastD)) = some g := by
    have hout : ¬ InStar fanOut fanOutRule (some ⟨.mcD, 1023⟩) := by
      rw [inStar_fanOut]
      decide
    rw [hear, setPastD_stores, named, List.map_cons, List.map_nil, List.foldlM_cons,
      Register.hear, if_neg hout]
    rfl
  simp only [setAndScan, listen, hset, hpast, Option.bind_eq_bind, Option.bind_some]
  rfl

/-- The client of the other protocol is told. -/
theorem gateway_relays_setHr0 :
    ((Work.mc readD0).told ((Work.mc readD0).process (fun _ => 0)
      (setAndScan.foldl (exec fun _ => 0) fanOutPlant).mem).2)[0]? = some 7 := by
  have hasks : (Work.mc readD0).Asks (setAndScan.foldl (exec fun _ => 0) fanOutPlant).mem
      (cellBlock .mcD 0 1) :=
    .mc (by decide) rfl rfl (by show 0 + 1 ≤ 1024; decide)
  exact gateway_relays (s := fanOutPlant) (fun _ => 0) rfl fanOut_starShaped fanOut_inSync
    fanOutRule_mem setAndScan_listen rfl hasks rfl ((inStar_fanOut _).mpr (.inr (.inr rfl)))

end Gateway

end VPlc
