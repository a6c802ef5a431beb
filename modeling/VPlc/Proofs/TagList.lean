import VPlc.Loop.Each
import VPlc.Proofs.TagValues
import VPlc.Proofs.TagsPersist

/-!
# What gets into the tag list

`addTag` looks at a tag before it takes it; `loadConfig` takes what is in the
file, and it empties the list first. Of a document it takes the tags up to the
first item that cannot be read (`loadItems_eq`), so a document that is at fault
somewhere leaves a part of itself behind and nothing of the list there was
(`loadConfig_atomic_iff`).

The list is in order if names are different and every tag has a cell. Nobody but
`loadConfig` can break the first, and only `loadConfig` and a tag of an area that
does not exist can break the second (`tag_list_orderly_iff`). As long as it is in
order, a removed name is gone.
-/

namespace VPlc

namespace PlcTagManager

/-! ## What a document says -/

/-- An item that can be read. -/
def readable (item : Json) : Bool := (PlcTag.ofJson item).isOk

/-- The tag of an item, if no required field is empty. -/
def taken (item : Json) : Option PlcTag :=
  (PlcTag.ofJson item).toOption.filter PlcTag.filled

/-- The tags of a document, up to the first item that cannot be read. -/
def described (j : Json) : List PlcTag := (j.elements.takeWhile readable).filterMap taken

theorem loadItems_eq (tags : List PlcTag) (items : List Json) :
    loadItems tags items =
      (tags ++ (items.takeWhile readable).filterMap taken, items.all readable) := by
  induction items generalizing tags with
  | nil => simp [loadItems]
  | cons item items ih =>
      unfold loadItems
      cases hitem : PlcTag.ofJson item with
      | error e =>
          have hreadable : readable item = false := by rw [readable, hitem]; rfl
          simp [hreadable]
      | ok tag =>
          have hreadable : readable item = true := by rw [readable, hitem]; rfl
          show loadItems (if tag.filled then tags ++ [tag] else tags) items = _
          rw [ih, List.takeWhile_cons_of_pos hreadable, List.all_cons, hreadable, Bool.true_and]
          cases hfilled : tag.filled with
          | true =>
              have htaken : taken item = some tag := by
                rw [taken, hitem]
                exact Option.filter_some_pos hfilled
              rw [if_pos rfl, List.filterMap_cons_some htaken, List.append_assoc,
                List.singleton_append]
          | false =>
              have htaken : taken item = none := by
                rw [taken, hitem]
                exact Option.filter_some_neg hfilled
              rw [if_neg Bool.false_ne_true, List.filterMap_cons_none htaken]

theorem loadConfig_none {mgr : PlcTagManager} (h : mgr.config = none) :
    mgr.loadConfig = (mgr, false) := by
  rw [loadConfig, h]
  cases mgr
  cases h
  rfl

theorem loadConfig_some {mgr : PlcTagManager} {j : Json} (h : mgr.config = some j) :
    mgr.loadConfig = ({ mgr with tags := described j }, j.elements.all readable) := by
  rw [loadConfig, h, readConfig, loadItems_eq]
  rfl

/-! ## A reload that fails -/

/-- If the reload fails, the tags are as they were, and the next tag to be added is
saved with them. -/
structure Atomic (mgr : PlcTagManager) : Prop where
  tags : mgr.loadConfig.2 = false → mgr.loadConfig.1.tags = mgr.tags
  saves : mgr.loadConfig.2 = false → ∀ tag, (mgr.loadConfig.1.addTag tag).2 = true →
    (mgr.loadConfig.1.addTag tag).1.config = saved (mgr.tags ++ [tag])

theorem config_addTag {mgr : PlcTagManager} {tag : PlcTag} (h : (mgr.addTag tag).2 = true) :
    (mgr.addTag tag).1.config = saved (mgr.tags ++ [tag]) := by
  unfold addTag at h ⊢
  cases hinsert : insertTag mgr.memory mgr.tags tag with
  | none =>
      rw [hinsert] at h
      cases h
  | some tags =>
      rw [(insertTag_spec hinsert).1]
      rfl

/-- The reload is atomic, but for a document with an item that cannot be read and
tags before it that are not just those in the list. -/
theorem loadConfig_atomic_iff (mgr : PlcTagManager) :
    Atomic mgr ↔ ∀ j, mgr.config = some j →
      (∀ item ∈ j.elements, readable item = true) ∨ described j = mgr.tags := by
  have htags : Atomic mgr ↔
      (mgr.loadConfig.2 = false → mgr.loadConfig.1.tags = mgr.tags) := by
    refine ⟨fun h => h.tags, fun h => ⟨h, fun hfail tag hadd => ?_⟩⟩
    rw [config_addTag hadd, h hfail]
  rw [htags]
  cases hconfig : mgr.config with
  | none => simp [loadConfig_none hconfig]
  | some j =>
      rw [loadConfig_some hconfig]
      simp only [Option.some.injEq, forall_eq']
      rw [← List.all_eq_true, or_iff_not_imp_left, Bool.not_eq_true]

/-- A tag the repository comes with. -/
def motorStart : PlcTag := ⟨"Motor_Start", "HoldingRegisters", 1, "UINT16", "aa"⟩

/-- A list of one tag, and in front of it in the file a number that is no tag. -/
def broken : PlcTagManager :=
  ⟨.default, some (.array [.integer 0, motorStart.toJson]), [motorStart]⟩

/-- The reload fails and takes the tag with it, and the next tag is saved alone. -/
theorem loadConfig_loses_tag :
    broken.loadConfig.2 = false ∧ broken.loadConfig.1.tags = [] ∧
      (broken.loadConfig.1.addTag setPoint).1.config = saved [setPoint] ∧ ¬ Atomic broken := by
  have hdescribed : described (.array [.integer 0, motorStart.toJson]) = [] := rfl
  have hload := @loadConfig_some broken _ rfl
  rw [hdescribed] at hload
  have htags : broken.loadConfig.1.tags = [] := by rw [hload]
  have hadd : (broken.loadConfig.1.addTag setPoint).1.config = saved [setPoint] := by
    rw [hload, addTag]
    dsimp only
    rw [show broken.memory = .default from rfl, insertTag_setPoint]
    rfl
  have hfails : broken.loadConfig.2 = false := by
    rw [hload]
    rfl
  refine ⟨hfails, htags, hadd, fun h => ?_⟩
  have hkept := htags.symm.trans (h.tags hfails)
  exact absurd hkept (by simp [broken])

/-! ## A list in order -/

/-- The tag has a cell. -/
def Located (memory : PlcMemory) (tag : PlcTag) : Prop :=
  ∃ a, tagArea tag.area = some a ∧ tag.address.toNat < memory.size a

structure Listed (memory : PlcMemory) (tags : List PlcTag) : Prop where
  names : (tags.map (·.name)).Nodup
  located : ∀ tag ∈ tags, Located memory tag

/-- The calls that fill the list, and somebody who changes the file. -/
inductive ListEvent
  | edit (config : Option Json)
  | loadConfig
  | addTag (tag : PlcTag)
  | removeTag (name : String)

def exec (mgr : PlcTagManager) : ListEvent → PlcTagManager
  | .edit config => { mgr with config }
  | .loadConfig => mgr.loadConfig.1
  | .addTag tag => (mgr.addTag tag).1
  | .removeTag name => (mgr.removeTag name).1

/-- The list is in order afterwards, and what was removed is gone. -/
structure Orderly (mgr : PlcTagManager) (e : ListEvent) : Prop where
  listed : Listed (exec mgr e).memory (exec mgr e).tags
  gone : ∀ name, e = .removeTag name → (mgr.removeTag name).2 = true →
    (mgr.removeTag name).1.hasTag name = false

/-- What a document has to say. -/
def Sound (memory : PlcMemory) (config : Option Json) : Prop :=
  ∀ j, config = some j → Listed memory (described j)

/-- What is loaded is in order, and what is added has an area, or else a name that
is taken. -/
def Careful (mgr : PlcTagManager) : ListEvent → Prop
  | .edit _ => True
  | .loadConfig => Sound mgr.memory mgr.config
  | .addTag tag => (tagArea tag.area).isSome = true ∨ mgr.hasTag tag.name = true
  | .removeTag _ => True

section Steps

variable {memory : PlcMemory} {mgr : PlcTagManager} {tags tags' : List PlcTag} {tag : PlcTag}
  {name : String}

theorem listed_append (h : Listed memory tags) (hfree : ∀ t ∈ tags, t.name ≠ tag.name)
    (htag : Located memory tag) : Listed memory (tags ++ [tag]) := by
  refine ⟨nodup_names_append h.names hfree, ?_⟩
  intro t ht
  rcases List.mem_append.mp ht with ht | ht
  · exact h.located t ht
  · rw [List.mem_singleton.mp ht]
    exact htag

theorem insertTag_unknown (hfree : ¬ tags.any (·.name = tag.name))
    (harea : tagArea tag.area = none) : insertTag memory tags tag = some (tags ++ [tag]) := by
  unfold tagArea at harea
  split at harea
  · cases harea
  next hcoils =>
  split at harea
  · cases harea
  next hdi =>
  split at harea
  · cases harea
  next hir =>
  split at harea
  · cases harea
  next hhr =>
  rw [insertTag, if_neg hfree, if_neg fun h => hcoils h.1, if_neg fun h => hdi h.1,
    if_neg fun h => hir h.1, if_neg fun h => hhr h.1]

/-- What is no removal has nothing to be gone afterwards. -/
theorem orderly_iff_listed (e : ListEvent) (he : ∀ name, e ≠ .removeTag name) :
    Orderly mgr e ↔ Listed (exec mgr e).memory (exec mgr e).tags :=
  ⟨fun h => h.listed, fun h => ⟨h, fun name hname => absurd hname (he name)⟩⟩

theorem orderly_loadConfig (h : Listed mgr.memory mgr.tags) :
    Orderly mgr .loadConfig ↔ Sound mgr.memory mgr.config := by
  rw [orderly_iff_listed .loadConfig nofun]
  show Listed mgr.loadConfig.1.memory mgr.loadConfig.1.tags ↔ _
  cases hconfig : mgr.config with
  | none =>
      rw [loadConfig_none hconfig]
      exact iff_of_true h fun _ he => nomatch he
  | some j =>
      rw [loadConfig_some hconfig]
      simp only [Sound, Option.some.injEq, forall_eq']

theorem orderly_addTag (h : Listed mgr.memory mgr.tags) :
    Orderly mgr (.addTag tag) ↔
      (tagArea tag.area).isSome = true ∨ mgr.hasTag tag.name = true := by
  rw [orderly_iff_listed (.addTag tag) nofun]
  show Listed (mgr.addTag tag).1.memory (mgr.addTag tag).1.tags ↔ _
  rw [addTag]
  cases hinsert : insertTag mgr.memory mgr.tags tag with
  | none =>
      refine iff_of_true h ?_
      by_contra hunknown
      rw [not_or, Bool.not_eq_true, Option.isSome_eq_false_iff, Option.isNone_iff_eq_none]
        at hunknown
      rw [insertTag_unknown hunknown.2 hunknown.1] at hinsert
      cases hinsert
  | some tags =>
      obtain ⟨rfl, hfree⟩ := insertTag_spec hinsert
      refine ⟨fun hafter => ?_, fun hknown => listed_append h hfree ?_⟩
      · obtain ⟨a, ha, -⟩ := hafter.located tag (List.mem_append_right _ List.mem_cons_self)
        exact Or.inl (by rw [ha]; rfl)
      · rcases hknown with harea | htaken
        · obtain ⟨a, ha⟩ := Option.isSome_iff_exists.mp harea
          exact ⟨a, ha, insertTag_inRange hinsert ha⟩
        · obtain ⟨t, ht, hname⟩ := List.any_eq_true.mp htaken
          exact absurd (of_decide_eq_true hname) (hfree t ht)

theorem orderly_removeTag (h : Listed mgr.memory mgr.tags) : Orderly mgr (.removeTag name) := by
  have hsub := List.eraseP_sublist (l := mgr.tags) (p := (·.name = name))
  constructor
  case listed =>
      show Listed (mgr.removeTag name).1.memory (mgr.removeTag name).1.tags
      rw [removeTag]
      cases herase : eraseTag mgr.tags name with
      | none => exact h
      | some tags =>
          rw [eraseTag_spec herase]
          exact ⟨h.names.sublist (hsub.map _), fun t ht => h.located t (hsub.subset ht)⟩
  case gone =>
      intro name' he htrue
      cases he
      unfold removeTag at htrue ⊢
      cases herase : eraseTag mgr.tags name with
      | none =>
          rw [herase] at htrue
          cases htrue
      | some tags =>
          rw [eraseTag_spec herase]
          exact any_eraseP h.names

theorem orderly_iff (h : Listed mgr.memory mgr.tags) (e : ListEvent) :
    Orderly mgr e ↔ Careful mgr e := by
  cases e with
  | edit config => exact iff_of_true ((orderly_iff_listed (.edit config) nofun).mpr h) trivial
  | loadConfig => exact orderly_loadConfig h
  | addTag tag => exact orderly_addTag h
  | removeTag name => exact iff_of_true (orderly_removeTag h) trivial

end Steps

theorem listed_new (memory : PlcMemory) (config : Option Json) :
    Listed (new memory config).memory (new memory config).tags ↔ Sound memory config := by
  have hempty : Listed memory [] := ⟨List.nodup_nil, fun _ h => nomatch h⟩
  cases config with
  | none => exact iff_of_true hempty fun _ he => nomatch he
  | some j =>
      rw [new, @loadConfig_some ⟨memory, some j, []⟩ j rfl]
      simp only [Sound, Option.some.injEq, forall_eq']

/-- From the construction on the list is in order and what was removed is gone, in
every run just if the files that are read are sound and no tag of an area that does
not exist is added under a free name. -/
theorem tag_list_orderly_iff (memory : PlcMemory) (config : Option Json)
    (es : List ListEvent) :
    (Listed (new memory config).memory (new memory config).tags ∧
        Loop.Each exec Orderly (new memory config) es) ↔
      Sound memory config ∧ Loop.Each exec Careful (new memory config) es := by
  rw [listed_new]
  refine and_congr_right fun hsound => ?_
  exact Loop.each_congr (fun _ e h => orderly_iff h e) (fun _ _ _ h => h.listed) es
    ((listed_new memory config).mpr hsound)

/-- A file with one tag twice. -/
def twice : Json := .array [motorStart.toJson, motorStart.toJson]

/-- One of the two is removed, and there is still one. -/
theorem removed_tag_remains :
    (new .default (some twice)).tags = [motorStart, motorStart] ∧
      ((new .default (some twice)).removeTag "Motor_Start").2 = true ∧
      ((new .default (some twice)).removeTag "Motor_Start").1.hasTag "Motor_Start" = true ∧
      ¬ ∀ (memory : PlcMemory) (config : Option Json) (es : List ListEvent),
        Listed (new memory config).memory (new memory config).tags ∧
          Loop.Each exec Orderly (new memory config) es := by
  have htags : (new .default (some twice)).tags = [motorStart, motorStart] := rfl
  have hremoved : ((new .default (some twice)).removeTag "Motor_Start").2 = true ∧
      ((new .default (some twice)).removeTag "Motor_Start").1.hasTag "Motor_Start" = true := by
    simp [removeTag, eraseTag, hasTag, saveConfig, htags, motorStart]
  refine ⟨htags, hremoved.1, hremoved.2, fun h => ?_⟩
  have hnames := (h .default (some twice) []).1.names
  rw [htags] at hnames
  exact absurd hnames (by decide)

end PlcTagManager

end VPlc
