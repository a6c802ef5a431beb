import Mathlib.Data.List.Nodup
import VPlc.Web.TagsApi

/-!
# Tags survive concurrent requests

The locked sections of `addTag` and `removeTag` keep two properties of the list:
names are different, and no required field is empty. The second is what makes the
file a faithful copy, since `loadConfig` passes over a tag that lacks a field
(`readConfig_saved`).

With these the library does the rest. The calls that succeed change the list one
after the other, whatever else goes on between their two sections; so a tag that
was added is there until a later call removes the tag of that name, and when all
calls have returned the file is what one of them saved last.
-/

namespace VPlc

namespace PlcTagManager

open WriteBehind

/-! ## The configuration file -/

theorem loadItems_filled {items : List Json} {tags : List PlcTag}
    (h : ∀ tag ∈ tags, tag.filled = true) :
    ∀ tag ∈ (loadItems tags items).1, tag.filled = true := by
  induction items generalizing tags with
  | nil => exact h
  | cons item items ih =>
      unfold loadItems
      split
      · exact h
      · next new _ =>
          refine ih ?_
          split
          · next hnew =>
              intro tag htag
              rcases List.mem_append.mp htag with htag | htag
              · exact h tag htag
              · rw [List.mem_singleton.mp htag]
                exact hnew
          · exact h

theorem new_filled (memory : PlcMemory) (config : Option Json) :
    ∀ tag ∈ (new memory config).tags, tag.filled = true := by
  show ∀ tag ∈ (readConfig config []).1, tag.filled = true
  unfold readConfig
  split
  · intro tag htag
    exact absurd htag List.not_mem_nil
  · exact loadItems_filled fun tag htag => absurd htag List.not_mem_nil

theorem loadItems_toJson {tags : List PlcTag} (h : ∀ tag ∈ tags, tag.filled = true)
    (acc : List PlcTag) :
    loadItems acc (tags.map PlcTag.toJson) = (acc ++ tags, true) := by
  induction tags generalizing acc with
  | nil => rw [List.append_nil]; rfl
  | cons tag tags ih =>
      have htag := h tag List.mem_cons_self
      rw [List.map_cons, loadItems, PlcTag.ofJson_toJson]
      show loadItems (if tag.filled then acc ++ [tag] else acc)
        (tags.map PlcTag.toJson) = (acc ++ tag :: tags, true)
      rw [if_pos htag, ih (fun t ht => h t (List.mem_cons_of_mem _ ht)),
        List.append_assoc]
      rfl

/-- What was saved is what is loaded, when no tag lacks a field. -/
theorem readConfig_saved {tags : List PlcTag} (h : ∀ tag ∈ tags, tag.filled = true)
    (old : List PlcTag) : readConfig (saved tags) old = (tags, true) :=
  loadItems_toJson h []

/-- So every list of such tags is one the program can start with. -/
theorem new_saved (memory : PlcMemory) {tags : List PlcTag}
    (h : ∀ tag ∈ tags, tag.filled = true) : (new memory (saved tags)).tags = tags :=
  congrArg Prod.fst (readConfig_saved h [])

/-! ## The locked sections -/

theorem nodup_names_append {tags : List PlcTag} {tag : PlcTag}
    (h : (tags.map (·.name)).Nodup) (hfree : ∀ t ∈ tags, t.name ≠ tag.name) :
    ((tags ++ [tag]).map (·.name)).Nodup := by
  rw [List.map_append, List.nodup_append]
  refine ⟨h, List.pairwise_singleton _ _, ?_⟩
  intro n hn n' hn'
  obtain ⟨t, ht, rfl⟩ := List.mem_map.mp hn
  rw [List.mem_singleton.mp hn']
  exact hfree t ht

theorem any_eraseP {tags : List PlcTag} {name : String} (h : (tags.map (·.name)).Nodup) :
    (tags.eraseP (·.name = name)).any (·.name = name) = false := by
  induction tags with
  | nil => rfl
  | cons t tags ih =>
      rw [List.map_cons, List.nodup_cons] at h
      by_cases hname : t.name = name
      · have hfirst : (t :: tags).eraseP (·.name = name) = tags :=
          List.eraseP_cons_of_pos (decide_eq_true hname)
        rw [hfirst, List.any_eq_false]
        intro t' ht' heq
        refine h.1 (List.mem_map.mpr ⟨t', ht', ?_⟩)
        rw [hname]
        exact of_decide_eq_true heq
      · have hlater : (t :: tags).eraseP (·.name = name) = t :: tags.eraseP (·.name = name) :=
          List.eraseP_cons_of_neg (by simpa using hname)
        rw [hlater, List.any_cons, ih h.2]
        simpa using hname

/-- What the list keeps: different names, and no field that has to be there
empty. -/
structure WellFormed (tags : List PlcTag) : Prop where
  names : (tags.map (·.name)).Nodup
  filled : ∀ tag ∈ tags, tag.filled = true

theorem apply_wellFormed {memory : PlcMemory} {r : Request}
    (hr : ∀ tag, r = .addTag tag → tag.filled = true) {tags tags' : List PlcTag}
    (h : WellFormed tags) (happ : r.apply memory tags = some tags') :
    WellFormed tags' := by
  cases r with
  | addTag tag =>
      obtain ⟨rfl, hfree⟩ := insertTag_spec happ
      refine ⟨nodup_names_append h.names hfree, ?_⟩
      intro t ht
      rcases List.mem_append.mp ht with ht | ht
      · exact h.filled t ht
      · rw [List.mem_singleton.mp ht]
        exact hr tag rfl
  | removeTag name =>
      rw [eraseTag_spec happ]
      have hsub := List.eraseP_sublist (l := tags) (p := (·.name = name))
      exact ⟨h.names.sublist (hsub.map _), fun t ht => h.filled t (hsub.subset ht)⟩

/-- Only the removal of its name takes a tag out of the list. -/
theorem mem_apply {memory : PlcMemory} {r : Request} {tag : PlcTag}
    (hr : r ≠ .removeTag tag.name) {tags tags' : List PlcTag} (h : tag ∈ tags)
    (happ : r.apply memory tags = some tags') : tag ∈ tags' := by
  cases r with
  | addTag t =>
      obtain ⟨rfl, -⟩ := insertTag_spec happ
      exact List.mem_append_left _ h
  | removeTag name =>
      rw [eraseTag_spec happ]
      have hne : tag.name ≠ name := by
        rintro rfl
        exact hr rfl
      exact (List.mem_eraseP_of_neg (by simpa using hne)).mpr h

/-- Only the addition of a tag of that name brings a name back. -/
theorem gone_apply {memory : PlcMemory} {r : Request} {name : String}
    (hr : ∀ tag, r = .addTag tag → tag.name ≠ name) {tags tags' : List PlcTag}
    (h : ∀ t ∈ tags, t.name ≠ name) (happ : r.apply memory tags = some tags') :
    ∀ t ∈ tags', t.name ≠ name := by
  cases r with
  | addTag tag =>
      obtain ⟨rfl, -⟩ := insertTag_spec happ
      exact List.forall_mem_append.mpr ⟨h, List.forall_mem_singleton.mpr (hr tag rfl)⟩
  | removeTag name' =>
      rw [eraseTag_spec happ]
      exact fun t ht => h t (List.eraseP_subset ht)

/-! ## Any number of calls -/

variable {memory : PlcMemory} {config : Option Json} {requests : List Request}

/-- The list is what the calls that changed it make of it one by one. -/
theorem interleave_serial (mgr : PlcTagManager) (requests : List Request)
    (schedule : List Nat) :
    serial (Request.apply mgr.memory) mgr.tags
        ((changes mgr requests schedule).map Prod.snd) =
      some (interleave mgr requests schedule).value :=
  run_serial (serve mgr requests) schedule

theorem new_wellFormed (hnames : ((new memory config).tags.map (·.name)).Nodup) :
    WellFormed (new memory config).tags := ⟨hnames, new_filled memory config⟩

theorem serial_wellFormed {mgr : PlcTagManager} {schedule : List Nat}
    (hfilled : ∀ tag, .addTag tag ∈ requests → tag.filled = true) {rs : List Request}
    (hsub : rs ⊆ (changes mgr requests schedule).map Prod.snd) {tags tags' : List PlcTag}
    (h : WellFormed tags) (hrun : serial (Request.apply mgr.memory) tags rs = some tags') :
    WellFormed tags' := by
  refine serial_inv (fun r hr v v' hv happ => ?_) h hrun
  refine apply_wellFormed ?_ hv happ
  rintro tag rfl
  exact hfilled tag (request_of_commits (hsub hr))

/-- A tag stays from the call that added it to the end, unless a later one
removed it. -/
theorem mem_interleave {mgr : PlcTagManager} {schedule : List Nat}
    {before after : List (Nat × Request)} {i : Nat} {tag : PlcTag}
    (hsplit : changes mgr requests schedule = before ++ (i, .addTag tag) :: after)
    (hkept : ∀ j, (j, .removeTag tag.name) ∉ after) :
    tag ∈ (interleave mgr requests schedule).value := by
  have hrun := interleave_serial mgr requests schedule
  rw [hsplit, List.map_append, List.map_cons] at hrun
  obtain ⟨tags, tags', -, hadd, hafter⟩ := serial_split hrun
  obtain ⟨rfl, -⟩ := insertTag_spec hadd
  have hmem : tag ∈ tags ++ [tag] := List.mem_append_right tags List.mem_cons_self
  refine serial_inv (I := (tag ∈ ·)) ?_ hmem hafter
  intro r hr v v' hv happ
  obtain ⟨⟨j, q⟩, hj, rfl⟩ := List.mem_map.mp hr
  refine mem_apply ?_ hv happ
  rintro rfl
  exact hkept j hj

/-- And a name is gone from the call that removed it to the end, unless a later one
added it. -/
theorem gone_interleave
    (hnames : ((new memory config).tags.map (·.name)).Nodup)
    (hfilled : ∀ tag, .addTag tag ∈ requests → tag.filled = true) {schedule : List Nat}
    {before after : List (Nat × Request)} {i : Nat} {name : String}
    (hsplit : changes (new memory config) requests schedule =
      before ++ (i, .removeTag name) :: after)
    (hgone : ∀ j tag, (j, .addTag tag) ∈ after → tag.name ≠ name) :
    ∀ t ∈ (interleave (new memory config) requests schedule).value, t.name ≠ name := by
  have hrun := interleave_serial (new memory config) requests schedule
  rw [hsplit, List.map_append, List.map_cons] at hrun
  obtain ⟨tags, tags', hbefore, hremove, hafter⟩ := serial_split hrun
  have hsub : before.map Prod.snd ⊆
      (changes (new memory config) requests schedule).map Prod.snd := by
    rw [hsplit, List.map_append]
    exact List.subset_append_left _ _
  have hwf : WellFormed tags := serial_wellFormed hfilled hsub (new_wellFormed hnames) hbefore
  have hstart : ∀ t ∈ tags', t.name ≠ name := by
    have hnone : (tags.eraseP (·.name = name)).any (·.name = name) = false :=
      any_eraseP hwf.names
    rw [eraseTag_spec hremove]
    simpa using hnone
  refine serial_inv (I := fun tags => ∀ t ∈ tags, t.name ≠ name) ?_ hstart hafter
  intro r hr v v' hv happ
  obtain ⟨⟨j, q⟩, hj, rfl⟩ := List.mem_map.mp hr
  refine gone_apply (fun tag hq => ?_) hv happ
  obtain rfl : q = .addTag tag := hq
  exact hgone j tag hj

/-- When all calls have returned, those that changed the list are those that
returned true. -/
theorem mem_changes_iff {mgr : PlcTagManager} {schedule : List Nat}
    (hdone : ∀ c ∈ (interleave mgr requests schedule).calls,
      ∃ ok, c.phase = .returned ok) (j : Nat) (r : Request) :
    (j, r) ∈ changes mgr requests schedule ↔
      (interleave mgr requests schedule).calls[j]? = some ⟨r, .returned true⟩ := by
  rw [changes, serve, ← committed_iff]
  constructor
  · rintro ⟨⟨q, p⟩, hc, rfl, hcom⟩
    obtain ⟨ok, hok⟩ := hdone _ (List.mem_of_getElem? hc)
    obtain rfl : p = .returned ok := hok
    obtain rfl : ok = true := hcom
    exact hc
  · exact fun hc => ⟨_, hc, rfl, rfl⟩

/-- Calls of `addTag` and `removeTag` at the same time. Once all have returned,
the file loads as the list if any call changed it, names are different, a tag
whose `addTag` returned true is there once unless a `removeTag` of its name that
came later returned true, and a name whose `removeTag` returned true is not there
unless an `addTag` of it that came later did. -/
theorem tags_persist (memory : PlcMemory) (config : Option Json)
    (requests : List Request) (schedule : List Nat)
    (hnames : ((new memory config).tags.map (·.name)).Nodup)
    (hfilled : ∀ tag, .addTag tag ∈ requests → tag.filled = true)
    (hdone : ∀ c ∈ (interleave (new memory config) requests schedule).calls,
      ∃ ok, c.phase = .returned ok) :
    let mgr := new memory config
    let s := interleave mgr requests schedule
    ((∃ c ∈ s.calls, c.phase = .returned true) →
      ∀ old, readConfig s.file old = (s.value, true)) ∧
    (s.value.map (·.name)).Nodup ∧
    (∀ j r, (j, r) ∈ changes mgr requests schedule ↔
      s.calls[j]? = some ⟨r, .returned true⟩) ∧
    (∀ i tag, s.calls[i]? = some ⟨.addTag tag, .returned true⟩ →
      ∃ before after,
        changes mgr requests schedule = before ++ (i, .addTag tag) :: after ∧
          ((∀ j, (j, .removeTag tag.name) ∉ after) → s.value.count tag = 1)) ∧
    ∀ i name, s.calls[i]? = some ⟨.removeTag name, .returned true⟩ →
      ∃ before after,
        changes mgr requests schedule = before ++ (i, .removeTag name) :: after ∧
          ((∀ j tag, (j, .addTag tag) ∈ after → tag.name ≠ name) →
            ∀ t ∈ s.value, t.name ≠ name) := by
  intro mgr s
  have hwf : WellFormed s.value :=
    serial_wellFormed hfilled (List.Subset.refl _) (new_wellFormed hnames)
      (interleave_serial mgr requests schedule)
  refine ⟨?_, hwf.names, mem_changes_iff hdone, ?_, ?_⟩
  · intro hok old
    have hfile : s.file = saved s.value :=
      run_current (start_currentOnce _ _ requests) schedule hdone hok
    rw [hfile]
    exact readConfig_saved hwf.filled old
  · intro i tag hi
    obtain ⟨before, after, hsplit⟩ :=
      List.append_of_mem ((mem_changes_iff hdone i _).mpr hi)
    refine ⟨before, after, hsplit, fun hkept => ?_⟩
    exact List.count_eq_one_of_mem hwf.names.of_map (mem_interleave hsplit hkept)
  · intro i name hi
    obtain ⟨before, after, hsplit⟩ :=
      List.append_of_mem ((mem_changes_iff hdone i _).mpr hi)
    exact ⟨before, after, hsplit, gone_interleave hnames hfilled hsplit⟩

/-- Two tags are added over HTTP and the first removed again, all three requests at
once: the one who removed it saves first, and the one who added it last. -/
theorem tags_persist_three :
    let level : PlcTag := ⟨"level", "InputRegisters", 0, "UINT16", ""⟩
    let valve : PlcTag := ⟨"valve", "Coils", 1, "BOOL", ""⟩
    let routed : List TagsRequest :=
      [.post (.ok level.toJson), .post (.ok valve.toJson), .delete "level"]
    let s := interleave (new (.new 8 8 8 8) none) (routed.filterMap TagsRequest.call?)
      [0, 1, 2, 2, 1, 0]
    readConfig s.file [] = (s.value, true) ∧ s.value.count valve = 1 := by
  intro level valve routed s
  have hcalls : routed.filterMap TagsRequest.call? =
      [.addTag level, .addTag valve, .removeTag "level"] := by decide +kernel
  have hdone : ∀ c ∈ s.calls, ∃ ok, c.phase = .returned ok := by decide +kernel
  have hfilled : ∀ tag, .addTag tag ∈ routed.filterMap TagsRequest.call? → tag.filled = true := by
    intro tag htag
    obtain ⟨r, -, hr⟩ := List.mem_filterMap.mp htag
    exact TagsRequest.filled_of_call? hr
  obtain ⟨hfile, -⟩ := tags_persist (.new 8 8 8 8) none
    (routed.filterMap TagsRequest.call?) [0, 1, 2, 2, 1, 0] List.nodup_nil hfilled hdone
  refine ⟨hfile ⟨⟨.addTag level, .returned true⟩, by decide +kernel, rfl⟩ [], ?_⟩
  decide +kernel

end PlcTagManager

end VPlc
