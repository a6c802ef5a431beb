import VPlc.Loop.Each
import VPlc.Web.MappingsApi

/-!
# The rules the file lists and the rules that run

`GET /api/mappings` answers with the file, and the engine runs what it made of
the file when it was posted. The two part in two ways. An item whose address is
empty or does not parse is listed and does not run; the request is answered with
200. An item that is no object, or whose `src` or `dst` is no string, makes the
engine keep the rules it had; the request is answered with 400, with the file
overwritten already.

So a request leaves file and engine in agreement, and a refused one leaves both
alone, exactly if every item it carries can be used, or if it carries the very
document that is in the file (`reports_iff`).
-/

namespace VPlc

/-- The member of this name, if it is a string. -/
def stringMember (key : String) : Json → Option String
  | .object members =>
      match members.lookup key with
      | some (.string s) => some s
      | _ => none
  | _ => none

/-- The rule an item of the document states. -/
def listedPair (item : Json) : Option (String × String) :=
  match stringMember "src" item, stringMember "dst" item with
  | some src, some dst => some (src, dst)
  | _, _ => none

/-- The rules a document states, in order. -/
def listedPairs (doc : Json) : List (String × String) :=
  doc.elements.filterMap listedPair

/-- The rules the engine runs, in order. -/
def activePairs (m : PlcMemory) : List (String × String) :=
  m.mappings.map fun rule => (rule.srcRaw, rule.dstRaw)

/-- Neither side is empty and both are addresses. -/
def usable (p : String × String) : Bool := (PlcMemory.itemRule p.1 p.2).isSome

/-- Reading the item does not throw. -/
def wellTyped (item : Json) : Bool := decide (mappingItem item ≠ .illTyped)

/-! ## Items and rules -/

theorem stringMember_of_value {key s : String} {item : Json}
    (h : item.value Json.getString key "" = .ok s) :
    stringMember key item = some s ∨ stringMember key item = none ∧ s = "" := by
  cases item with
  | object members =>
      cases hl : members.lookup key with
      | none =>
          simp only [Json.value, hl] at h
          refine .inr ⟨?_, (Except.ok.inj h).symm⟩
          simp only [stringMember, hl]
      | some j =>
          simp only [Json.value, hl] at h
          cases j with
          | string t =>
              obtain rfl : t = s := Except.ok.inj h
              left
              simp only [stringMember, hl]
          | _ => cases h
  | _ => cases h

theorem itemRule_raw {src dst : String} {rule : MappingRule}
    (h : PlcMemory.itemRule src dst = some rule) :
    (rule.srcRaw, rule.dstRaw) = (src, dst) := by
  unfold PlcMemory.itemRule at h
  split at h
  · cases h
  · split at h
    · cases h
      rfl
    · cases h

theorem itemRule_empty {src dst : String} (h : src = "" ∨ dst = "") :
    PlcMemory.itemRule src dst = none := by
  rw [PlcMemory.itemRule, if_pos]
  simpa using h

theorem itemRule_listed {item : Json} {src dst : String}
    (h : mappingItem item = .entry src dst) :
    (PlcMemory.itemRule src dst).toList.map (fun r => (r.srcRaw, r.dstRaw)) =
      (listedPair item).toList.filter usable := by
  have hmade : (PlcMemory.itemRule src dst).toList.map (fun r => (r.srcRaw, r.dstRaw)) =
      [(src, dst)].filter usable := by
    cases hr : PlcMemory.itemRule src dst with
    | none => simp [usable, hr]
    | some rule => simpa [usable, hr] using itemRule_raw hr
  unfold mappingItem at h
  split at h
  · next s d hsrc hdst =>
      cases h
      rw [listedPair]
      rcases stringMember_of_value hsrc with hs | ⟨hs, rfl⟩
      · rcases stringMember_of_value hdst with hd | ⟨hd, rfl⟩
        · rw [hs, hd]
          exact hmade
        · rw [hs, hd, itemRule_empty (.inr rfl)]
          rfl
      · rw [hs, itemRule_empty (.inl rfl)]
        rfl
  · cases h

/-- A document is loaded if all its items are well typed, and then the rules are
those it states that can be used. -/
theorem itemRules_listed (items : List Json) (h : ∀ item ∈ items, wellTyped item = true) :
    ∃ rules, PlcMemory.itemRules (items.map mappingItem) = some rules ∧
      rules.map (fun r => (r.srcRaw, r.dstRaw)) =
        (items.filterMap listedPair).filter usable := by
  induction items with
  | nil => exact ⟨[], rfl, rfl⟩
  | cons item items ih =>
      obtain ⟨rules, hrules, hraw⟩ := ih fun i hi => h i (List.mem_cons_of_mem _ hi)
      have hitem : mappingItem item ≠ .illTyped := of_decide_eq_true (h item List.mem_cons_self)
      obtain ⟨src, dst, hentry⟩ : ∃ src dst, mappingItem item = .entry src dst := by
        cases hm : mappingItem item with
        | illTyped => exact absurd hm hitem
        | entry src dst => exact ⟨src, dst, rfl⟩
      refine ⟨(PlcMemory.itemRule src dst).toList ++ rules, ?_, ?_⟩
      · rw [List.map_cons, hentry, PlcMemory.itemRules, hrules]
        rfl
      · have hpair := itemRule_listed hentry
        rw [List.map_append, hraw, hpair, List.filterMap_cons]
        cases listedPair item with
        | none => rfl
        | some p => rw [← List.filter_append]; rfl

theorem itemRules_illTyped {items : List Json} {item : Json} (hmem : item ∈ items)
    (h : wellTyped item = false) : PlcMemory.itemRules (items.map mappingItem) = none := by
  induction items with
  | nil => exact absurd hmem List.not_mem_nil
  | cons i items ih =>
      rw [List.map_cons]
      rcases List.mem_cons.mp hmem with rfl | hmem
      · have hill : mappingItem item = .illTyped := by simpa [wellTyped] using h
        rw [hill]
        rfl
      · cases mappingItem i with
        | illTyped => rfl
        | entry src dst => rw [PlcMemory.itemRules, ih hmem]; rfl

/-! ## One request -/

namespace MappingsApi

/-- The list the API answers with is the list that runs. -/
def Agrees (s : MappingsApi) : Prop :=
  listedPairs s.getMappings = activePairs s.memory

/-- What is promised of a request with these items: file and engine agree after
it, and if it is refused neither has changed. -/
def Reports (s : MappingsApi) (items : List Json) : Prop :=
  let r := s.postMappings (.ok (.array items))
  r.1.Agrees ∧ (r.2.status = 400 → r.1 = s)

/-- Every item is well typed. -/
def WellTyped (items : List Json) : Prop := ∀ item ∈ items, wellTyped item = true

/-- Either every item is well typed and every rule it states can be used, or one
is not and the request brings the very document that is in the file. -/
def Faithful (s : MappingsApi) (items : List Json) : Prop :=
  (WellTyped items ∧ ∀ p ∈ listedPairs (.array items), usable p = true) ∨
    (¬ WellTyped items ∧ s.file = some (.array items))

variable {s : MappingsApi} {items : List Json}

/-- A document of well typed items is loaded. -/
theorem post_wellTyped (s : MappingsApi) (h : WellTyped items) :
    ∃ rules, s.postMappings (.ok (.array items)) =
        (⟨some (.array items), { s.memory with mappings := rules }⟩, ⟨200, "Success"⟩) ∧
      rules.map (fun r => (r.srcRaw, r.dstRaw)) =
        (listedPairs (.array items)).filter usable := by
  obtain ⟨rules, hrules, hraw⟩ := itemRules_listed items h
  have hload : s.memory.loadMappings (some (items.map mappingItem)) =
      ({ s.memory with mappings := rules }, true) := by
    rw [PlcMemory.loadMappings, Option.bind_some, hrules]
  refine ⟨rules, ?_, hraw⟩
  simp only [postMappings, Json.isArray, Json.elements, hload]
  rfl

/-- One ill typed item, and the engine keeps its rules while the file is
replaced. -/
theorem post_illTyped (s : MappingsApi) (h : ¬ WellTyped items) :
    s.postMappings (.ok (.array items)) =
      (⟨some (.array items), s.memory⟩,
        ⟨400, "Failed to parse some mappings, but saved file."⟩) := by
  obtain ⟨item, hmem, hill⟩ : ∃ item ∈ items, wellTyped item = false := by
    simpa [WellTyped] using h
  have hload : s.memory.loadMappings (some (items.map mappingItem)) =
      (s.memory, false) := by
    rw [PlcMemory.loadMappings, Option.bind_some, itemRules_illTyped hmem hill]
  simp only [postMappings, Json.isArray, Json.elements, hload]
  rfl

/-- The promise is kept by the requests that can be used and by refused ones that
repeat the file, and by no others. -/
theorem reports_iff (h : s.Agrees) (items : List Json) :
    s.Reports items ↔ s.Faithful items := by
  by_cases hwt : WellTyped items
  · obtain ⟨rules, hpost, hraw⟩ := post_wellTyped s hwt
    have hagree : Agrees ⟨some (.array items), { s.memory with mappings := rules }⟩ ↔
        ∀ p ∈ listedPairs (.array items), usable p = true := by
      show listedPairs (.array items) = rules.map (fun r => (r.srcRaw, r.dstRaw)) ↔ _
      rw [hraw, eq_comm, List.filter_eq_self]
    unfold Reports Faithful
    rw [hpost]
    constructor
    · rintro ⟨hafter, -⟩
      exact .inl ⟨hwt, hagree.mp hafter⟩
    · rintro (⟨-, huse⟩ | ⟨hill, -⟩)
      · refine ⟨hagree.mpr huse, fun hstatus => ?_⟩
        exact absurd (show (200 : Nat) = 400 from hstatus) (by omega)
      · exact absurd hwt hill
  · unfold Reports Faithful
    rw [post_illTyped s hwt]
    constructor
    · rintro ⟨-, hsame⟩
      exact .inr ⟨hwt, (congrArg file (hsame rfl)).symm⟩
    · rintro (⟨hwt', -⟩ | ⟨-, hfile⟩)
      · exact absurd hwt' hwt
      · have hs : s = ⟨some (.array items), s.memory⟩ := by rw [← hfile]
        exact ⟨hs ▸ h, fun _ => hs.symm⟩

/-! ## A sequence of requests -/

/-- What a request with these items leaves. -/
def post (s : MappingsApi) (items : List Json) : MappingsApi :=
  (s.postMappings (.ok (.array items))).1

/-- From a state where file and engine agree, every request of a sequence keeps
the promise exactly if each is faithful to its items in the state it finds. -/
theorem mappings_reported_iff (s : MappingsApi) (h : s.Agrees)
    (bodies : List (List Json)) :
    Loop.Each post Reports s bodies ↔ Loop.Each post Faithful s bodies := by
  have hiff (s : MappingsApi) (items : List Json) (h : s.Agrees) :
      s.Reports items ↔ s.Faithful items := reports_iff h items
  have hkeep (s : MappingsApi) (items : List Json) (_ : s.Agrees)
      (hrep : s.Reports items) : (s.post items).Agrees := hrep.1
  exact Loop.each_congr hiff hkeep bodies h

/-- The store with no rules and a file that lists none. -/
def blank : MappingsApi := ⟨some (.array []), PlcMemory.default⟩

/-- A rule whose source has no index. -/
def noIndex : Json := .object [("src", .string "MODBUS.HR"), ("dst", .string "MC.D.1")]

theorem blank_agrees : blank.Agrees := rfl

/-- One request, and its answer is a list of two rules. -/
theorem mappings_reported_two :
    Loop.Each post Reports blank
      [[.object [("src", .string "S7.DB1.W.1"), ("dst", .string "MC.D.1")],
        .object [("src", .string "LS.Q.0"), ("dst", .string "MC.Y.0")]]] := by
  refine (mappings_reported_iff blank blank_agrees _).mpr ⟨.inl ⟨?_, ?_⟩, trivial⟩
  · exact List.forall_mem_cons.mpr ⟨rfl, List.forall_mem_singleton.mpr rfl⟩
  · show ∀ p ∈ [("S7.DB1.W.1", "MC.D.1"), ("LS.Q.0", "MC.Y.0")], usable p = true
    exact List.forall_mem_cons.mpr ⟨rfl, List.forall_mem_singleton.mpr rfl⟩

/-- The rule without an index is listed and does not run. -/
theorem mappings_not_reported :
    ¬ ∀ s : MappingsApi, s.Agrees → ∀ bodies, Loop.Each post Reports s bodies := by
  intro h
  have hrep := (h blank blank_agrees [[noIndex]]).1.1
  have hlist : listedPairs (.array [noIndex]) = [("MODBUS.HR", "MC.D.1")] := rfl
  have hnone : activePairs (blank.postMappings (.ok (.array [noIndex]))).1.memory = [] := rfl
  rw [Agrees, hnone] at hrep
  exact List.cons_ne_nil _ _ (hlist.symm.trans hrep)

end MappingsApi

end VPlc
