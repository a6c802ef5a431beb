import VPlc.Proofs.Stoi
import VPlc.Tags.Manager

/-!
# Tag values as text

A tag has a type, and nothing reads it: writing goes by the area alone, and so
does reading back. `Means type text c` says what a text should mean under a
type, `c` being how the value is printed. `kept` is what the areas make of a
text. The two agree for the pairs of tag and text that `Fits` lists, and for no
others (`writeTagValue_truthful`).
-/

namespace VPlc

open Text (Numeral SignedNumeral)

/-! ## Values by type -/

def isOn (text : String) : Prop := text = "1" ∨ text = "true" ∨ text = "ON"

def isOff (text : String) : Prop := text = "0" ∨ text = "false" ∨ text = "OFF"

instance (text : String) : Decidable (isOn text) := inferInstanceAs (Decidable (_ ∨ _))

/-- A text is a value of a type, and `canonical` is how the value is printed. -/
def Means (type text canonical : String) : Prop :=
  (type = "BOOL" ∧ (isOn text ∧ canonical = "1" ∨ isOff text ∧ canonical = "0")) ∨
  (type = "UINT16" ∧ ∃ n : Nat, n ≤ 65535 ∧ Numeral text.toList n ∧ canonical = toString n) ∨
  (type = "INT16" ∧ ∃ v : Int, -32768 ≤ v ∧ v ≤ 32767 ∧ SignedNumeral text.toList v ∧
    canonical = toString v)

namespace PlcTagManager

/-- What `writeTagValue` and a `readTagValue` after it say is so. -/
def Truthful (mgr : PlcTagManager) (tag : PlcTag) (text : String) : Prop :=
  ((mgr.writeTagValue tag.name text).2 = true →
    ∃ canonical, Means tag.type text canonical ∧
      (mgr.writeTagValue tag.name text).1.readTagValue tag = canonical) ∧
  ((mgr.writeTagValue tag.name text).2 = false →
    (mgr.writeTagValue tag.name text).1.memory = mgr.memory)

/-! ## Areas by name -/

/-- The area of the name, if it is one of the four. -/
def tagArea (area : String) : Option Area :=
  if area = "Coils" then some .coil
  else if area = "DiscreteInputs" then some .di
  else if area = "InputRegisters" then some .ir
  else if area = "HoldingRegisters" then some .hr
  else none

/-- The word an area makes of a text. -/
def kept (a : Area) (text : String) : Except ParseError UInt16 :=
  if a.isBit then .ok (decide (isOn text)).toUInt16 else stoiU16 text

theorem toString_bit (b : Bool) : (if b then "1" else "0") = toString b.toUInt16.toNat := by
  cases b <;> rfl

theorem readTagValue_eq (mgr : PlcTagManager) (tag : PlcTag) :
    mgr.readTagValue tag =
      (tagArea tag.area).elim "0" fun a => toString (mgr.memory.get a tag.address.toNat).toNat := by
  simp only [readTagValue, tagArea, toString_bit,
    apply_ite (fun o : Option Area =>
      o.elim "0" fun a => toString (mgr.memory.get a tag.address.toNat).toNat),
    Option.elim_some, Option.elim_none]
  rfl

theorem writeValue_eq (memory : PlcMemory) (tag : PlcTag) (text : String) :
    writeValue memory tag text =
      (tagArea tag.area).elim (.ok memory) fun a =>
        (kept a text).map (memory.set a tag.address.toNat) := by
  simp only [writeValue, tagArea, PlcMemory.writeCoil_eq, PlcMemory.writeDiscreteInput_eq,
    apply_ite (fun o : Option Area => o.elim (Except.ok memory) fun a =>
      (kept a text).map (memory.set a tag.address.toNat)),
    Option.elim_some, Option.elim_none]
  rfl

/-! ## What is kept and what is meant -/

/-- The tags and texts the areas do justice to. -/
def Fits (tag : PlcTag) (text : String) : Prop :=
  (tagArea tag.area).elim
    (tag.type = "BOOL" ∧ isOff text ∨ tag.type = "UINT16" ∧ Numeral text.toList 0 ∨
      tag.type = "INT16" ∧ SignedNumeral text.toList 0)
    fun a =>
      if a.isBit then
        tag.type = "BOOL" ∧ (isOn text ∨ isOff text) ∨
        tag.type = "UINT16" ∧ (text = "1" ∨ Numeral text.toList 0) ∨
        tag.type = "INT16" ∧ (text = "1" ∨ SignedNumeral text.toList 0)
      else
        (∃ e, stoi text = .error e) ∨
        tag.type = "BOOL" ∧ (text = "0" ∨ text = "1") ∨
        tag.type = "UINT16" ∧ (∃ n : Nat, n ≤ 65535 ∧ Numeral text.toList n) ∨
        tag.type = "INT16" ∧ (∃ n : Nat, n ≤ 32767 ∧ SignedNumeral text.toList n)

section Kept

variable {type text : String}

theorem eq_one_of_on {v : Int} (hon : isOn text) (h : SignedNumeral text.toList v) :
    text = "1" ∧ v = 1 := by
  rcases hon with rfl | rfl | rfl
  · exact ⟨rfl, h.functional (Numeral.toString 1).signed⟩
  · exact absurd (h.digit_or_minus (c := 't') (by decide)) (by decide)
  · exact absurd (h.digit_or_minus (c := 'O') (by decide)) (by decide)

theorem means_zero :
    Means type text "0" ↔
      type = "BOOL" ∧ isOff text ∨ type = "UINT16" ∧ Numeral text.toList 0 ∨
        type = "INT16" ∧ SignedNumeral text.toList 0 := by
  refine or_congr (and_congr_right fun _ => ?_)
    (or_congr (and_congr_right fun _ => ?_) (and_congr_right fun _ => ?_))
  · constructor
    · rintro (⟨-, h⟩ | ⟨hoff, -⟩)
      · exact absurd h (by decide)
      · exact hoff
    · intro hoff
      exact Or.inr ⟨hoff, rfl⟩
  · constructor
    · rintro ⟨n, -, hnum, hzero⟩
      obtain rfl : 0 = n := Text.toString_inj hzero
      exact hnum
    · intro hnum
      exact ⟨0, by omega, hnum, rfl⟩
  · constructor
    · rintro ⟨v, -, -, hnum, hzero⟩
      obtain rfl : v = 0 := Text.eq_of_toString_eq (n := 0) hzero
      exact hnum
    · intro hnum
      exact ⟨0, by omega, by omega, hnum, rfl⟩

theorem means_bit :
    Means type text (toString (decide (isOn text)).toUInt16.toNat) ↔
      type = "BOOL" ∧ (isOn text ∨ isOff text) ∨
      type = "UINT16" ∧ (text = "1" ∨ Numeral text.toList 0) ∨
      type = "INT16" ∧ (text = "1" ∨ SignedNumeral text.toList 0) := by
  have hone : isOn "1" := Or.inl rfl
  by_cases hon : isOn text
  · rw [decide_eq_true hon]
    refine or_congr (and_congr_right fun _ => ?_)
      (or_congr (and_congr_right fun _ => ?_) (and_congr_right fun _ => ?_))
    · exact ⟨fun _ => Or.inl hon, fun _ => Or.inl ⟨hon, rfl⟩⟩
    · constructor
      · rintro ⟨n, -, hnum, -⟩
        exact Or.inl (eq_one_of_on hon hnum.signed).1
      · rintro (rfl | hnum)
        · exact ⟨1, by omega, Numeral.toString 1, rfl⟩
        · exact absurd (eq_one_of_on hon hnum.signed).2 (by decide)
    · constructor
      · rintro ⟨v, -, -, hnum, -⟩
        exact Or.inl (eq_one_of_on hon hnum).1
      · rintro (rfl | hnum)
        · exact ⟨1, by omega, by omega, (Numeral.toString 1).signed, rfl⟩
        · exact absurd (eq_one_of_on hon hnum).2 (by decide)
  · rw [decide_eq_false hon]
    have hne : text ≠ "1" := fun he => hon (he ▸ hone)
    have hzero := @means_zero type text
    simp only [hon, hne, false_or]
    exact hzero

theorem means_word {v : Int} (h : stoi text = .ok v) :
    Means type text (toString (UInt16.ofInt v).toNat) ↔
      type = "BOOL" ∧ (text = "0" ∨ text = "1") ∨
      type = "UINT16" ∧ (∃ n : Nat, n ≤ 65535 ∧ Numeral text.toList n) ∨
      type = "INT16" ∧ (∃ n : Nat, n ≤ 32767 ∧ SignedNumeral text.toList n) := by
  have hword : ∀ n : Nat, n ≤ 65535 → stoi text = .ok (n : Int) →
      (UInt16.ofInt v).toNat = n := by
    intro n hn hstoi
    rw [h] at hstoi
    rw [toNat_ofInt, Except.ok.inj hstoi]
    omega
  refine or_congr (and_congr_right fun _ => ?_)
    (or_congr (and_congr_right fun _ => ?_) (and_congr_right fun _ => ?_))
  · constructor
    · rintro (⟨rfl | rfl | rfl, -⟩ | ⟨rfl | rfl | rfl, -⟩)
      · exact Or.inr rfl
      · cases h
      · cases h
      · exact Or.inl rfl
      · cases h
      · cases h
    · rintro (rfl | rfl)
      · exact Or.inr ⟨Or.inl rfl, by rw [hword 0 (by omega) rfl]; rfl⟩
      · exact Or.inl ⟨Or.inl rfl, by rw [hword 1 (by omega) rfl]; rfl⟩
  · constructor
    · rintro ⟨n, hn, hnum, -⟩
      exact ⟨n, hn, hnum⟩
    · rintro ⟨n, hn, hnum⟩
      exact ⟨n, hn, hnum, by rw [hword n hn (stoi_numeral hnum (by omega))]⟩
  · constructor
    · rintro ⟨k, -, hk, hnum, hprint⟩
      obtain rfl : k = (UInt16.ofInt v).toNat := Text.eq_of_toString_eq hprint
      exact ⟨_, by omega, hnum⟩
    · rintro ⟨n, hn, hnum⟩
      refine ⟨n, by omega, by omega, hnum, ?_⟩
      rw [hword n (by omega) (stoi_signed hnum (by omega) (by omega)), Text.toString_natCast]

end Kept

/-! ## Tags that were added -/

/-- The manager knows the tag, and the tag's cell exists. -/
structure Holds (mgr : PlcTagManager) (tag : PlcTag) : Prop where
  found : mgr.tags.find? (·.name = tag.name) = some tag
  inRange : ∀ a, tagArea tag.area = some a → tag.address.toNat < mgr.memory.size a

theorem insertTag_inRange {memory : PlcMemory} {tags tags' : List PlcTag} {tag : PlcTag}
    (h : insertTag memory tags tag = some tags') {a : Area} (ha : tagArea tag.area = some a) :
    tag.address.toNat < memory.size a := by
  unfold insertTag at h
  split at h
  · cases h
  split at h
  · cases h
  next hcoils =>
  split at h
  · cases h
  next hdi =>
  split at h
  · cases h
  next hir =>
  split at h
  · cases h
  next hhr =>
  unfold tagArea at ha
  split at ha
  · next hname => cases ha; exact Nat.lt_of_not_le fun hle => hcoils ⟨hname, hle⟩
  split at ha
  · next hname => cases ha; exact Nat.lt_of_not_le fun hle => hdi ⟨hname, hle⟩
  split at ha
  · next hname => cases ha; exact Nat.lt_of_not_le fun hle => hir ⟨hname, hle⟩
  split at ha
  · next hname => cases ha; exact Nat.lt_of_not_le fun hle => hhr ⟨hname, hle⟩
  · cases ha

theorem holds_addTag {mgr : PlcTagManager} {tag : PlcTag} (h : (mgr.addTag tag).2 = true)
    {memory : PlcMemory} (hsize : ∀ a, memory.size a = mgr.memory.size a) :
    Holds { (mgr.addTag tag).1 with memory } tag := by
  unfold addTag at h ⊢
  cases hinsert : insertTag mgr.memory mgr.tags tag with
  | none =>
      rw [hinsert] at h
      cases h
  | some tags =>
      obtain ⟨rfl, hfree⟩ := insertTag_spec hinsert
      constructor
      case found =>
          have hnone : mgr.tags.find? (·.name = tag.name) = none := by
            rw [List.find?_eq_none]
            intro t ht hname
            exact hfree t ht (of_decide_eq_true hname)
          show (mgr.tags ++ [tag]).find? (·.name = tag.name) = some tag
          rw [List.find?_append, hnone, Option.none_or]
          simp
      case inRange =>
          intro a ha
          show tag.address.toNat < memory.size a
          rw [hsize]
          exact insertTag_inRange hinsert ha

theorem norm_kept {a : Area} {text : String} {w : UInt16} (h : kept a text = .ok w) :
    a.norm w = w := by
  unfold kept at h
  split at h
  · next hbit =>
      rw [← Except.ok.inj h]
      exact Area.norm_bit hbit _
  · next hword => exact Area.norm_of_word ((Bool.not_eq_true _).mp hword) w

/-- A write the area takes, and the read behind it. -/
theorem write_read {mgr : PlcTagManager} {tag : PlcTag} (h : Holds mgr tag) {a : Area}
    {text : String} {w : UInt16} (ha : tagArea tag.area = some a) (hw : kept a text = .ok w) :
    (mgr.writeTagValue tag.name text).2 = true ∧
      (mgr.writeTagValue tag.name text).1.readTagValue tag = toString w.toNat := by
  have hwrite : mgr.writeTagValue tag.name text =
      ({ mgr with memory := mgr.memory.set a tag.address.toNat w }, true) := by
    simp only [writeTagValue, h.found, writeValue_eq, ha, Option.elim_some, hw, Except.map]
  rw [hwrite, readTagValue_eq, ha, Option.elim_some, PlcMemory.get_set_same,
    if_pos ⟨rfl, h.inRange a ha⟩, norm_kept hw]
  exact ⟨rfl, rfl⟩

theorem truthful_iff {mgr : PlcTagManager} {tag : PlcTag} (h : Holds mgr tag) (text : String) :
    Truthful mgr tag text ↔
      (tagArea tag.area).elim (Means tag.type text "0") fun a =>
        ∀ w, kept a text = .ok w → Means tag.type text (toString w.toNat) := by
  cases ha : tagArea tag.area with
  | none => simp [Truthful, writeTagValue, h.found, writeValue_eq, readTagValue_eq, ha]
  | some a =>
      cases hw : kept a text with
      | error e => simp [Truthful, writeTagValue, h.found, writeValue_eq, ha, hw, Except.map]
      | ok w =>
          obtain ⟨htrue, hread⟩ := write_read h ha hw
          simp [Truthful, htrue, hread, hw]

/-- For a tag that was added, whatever has happened to the memory since, a write
tells the truth just for the texts that fit. -/
theorem writeTagValue_truthful {mgr : PlcTagManager} {tag : PlcTag}
    (h : (mgr.addTag tag).2 = true) {memory : PlcMemory}
    (hsize : ∀ a, memory.size a = mgr.memory.size a) (text : String) :
    Truthful { (mgr.addTag tag).1 with memory } tag text ↔ Fits tag text := by
  rw [truthful_iff (holds_addTag h hsize), Fits]
  cases tagArea tag.area with
  | none => exact means_zero
  | some a =>
      simp only [Option.elim_some, kept]
      split
      · simp only [Except.ok.injEq, forall_eq']
        exact means_bit
      · unfold stoiU16
        cases hv : stoi text with
        | error e => simp [Except.map]
        | ok v =>
            simp only [Except.map, Except.ok.injEq, forall_eq', reduceCtorEq, exists_false,
              false_or]
            exact means_word hv

/-- A tag for the set point of the tank. -/
def setPoint : PlcTag := ⟨"SetPoint", "HoldingRegisters", 1, "UINT16", ""⟩

def withSetPoint : PlcTagManager :=
  { ((new PlcMemory.default none).addTag setPoint).1 with memory := PlcMemory.default }

theorem insertTag_setPoint : insertTag PlcMemory.default [] setPoint = some [setPoint] := by
  have hroom : ¬ PlcMemory.default.getHoldingRegistersSize ≤ 1 := by
    simp [PlcMemory.default, PlcMemory.new, PlcMemory.getHoldingRegistersSize,
      PlcMemory.defaultHoldingRegistersSize]
  simp [insertTag, setPoint, hroom]

theorem setPoint_added : ((new PlcMemory.default none).addTag setPoint).2 = true := by
  simp [addTag, new, loadConfig, readConfig, insertTag_setPoint]

/-- Seventy thousand is taken for a register, and reads back as something else. -/
theorem writeTagValue_wraps :
    (withSetPoint.writeTagValue "SetPoint" "70000").2 = true ∧
      (withSetPoint.writeTagValue "SetPoint" "70000").1.readTagValue setPoint = "4464" ∧
      ¬ Truthful withSetPoint setPoint "70000" := by
  have hholds : Holds withSetPoint setPoint := holds_addTag setPoint_added fun _ => rfl
  obtain ⟨htrue, hread⟩ := @write_read _ _ hholds .hr "70000" 4464 rfl rfl
  refine ⟨htrue, hread, ?_⟩
  intro h
  have hmeans := (truthful_iff hholds "70000").mp h 4464 rfl
  rcases (means_word (v := 70000) rfl).mp hmeans with ⟨hbool, -⟩ | ⟨-, n, hn, hnum⟩ | ⟨hint, -⟩
  · exact absurd hbool (by decide)
  · have hvalue : n = 70000 := hnum.functional (Numeral.toString 70000)
    omega
  · exact absurd hint (by decide)

theorem writeTagValue_truthful_setPoint :
    ((new PlcMemory.default none).addTag setPoint).2 = true ∧
      Truthful withSetPoint setPoint "1200" := by
  have hfits : Fits setPoint "1200" :=
    Or.inr (Or.inr (Or.inl ⟨rfl, 1200, by decide, Numeral.toString 1200⟩))
  exact ⟨setPoint_added,
    (writeTagValue_truthful setPoint_added (fun _ => rfl) "1200").mpr hfits⟩

end PlcTagManager

end VPlc
