import VPlc.Core.AreaTable
import VPlc.Proofs.Stoi

/-!
# What the parser makes of an address

`parseAddress` is a lookup in the memory map and a call of `stoi`
(`parseAddress_parts`): the first two parts of an address pick an area, a later
one is its index, and when there is no such area the reference names nothing.
The rest of the module is about the pieces an address is split into.
-/

namespace VPlc

open Text (getlines)

/-! ## The dispatch -/

/-- The part an address of the area reads its index from. -/
def Area.indexPart (a : Area) (parts : List String) : String :=
  if a.hasSubType then wordIndexPart parts else parts.getD 2 ""

/-- `parseAddress` on an address with parts enough. -/
def parseParts (protocol area : String) (parts : List String) :
    Except ParseError MemoryRef :=
  if protocol = "MODBUS" then parseModbus area parts
  else if protocol = "S7" then parseS7 area parts
  else if protocol = "MC" then parseMC area parts
  else if protocol = "LS" then parseLS area parts
  else return ⟨protocol, area, 0, true⟩

theorem parseParts_spelling (parts : List String) {s : String × Area} (h : s ∈ spellings) :
    parseParts s.2.protocol s.1 parts = (stoiU16 (s.2.indexPart parts)).map s.2.ref := by
  revert s
  simp only [spellings, List.forall_mem_cons, List.not_mem_nil, false_implies, implies_true,
    and_true]
  and_intros <;> rfl

theorem parseParts_none (parts : List String) {protocol spelling : String}
    (h : ∀ s ∈ spellings, s.2.protocol = protocol → spelling ≠ s.1) :
    parseParts protocol spelling parts = .ok ⟨protocol, spelling, 0, true⟩ := by
  simp only [spellings, List.forall_mem_cons, Area.protocol] at h
  unfold parseParts
  split
  · next hp =>
      subst hp
      simp only [String.reduceEq, false_implies, forall_const, true_and] at h
      simp [parseModbus, h]
      rfl
  split
  · next hp =>
      subst hp
      simp only [String.reduceEq, false_implies, forall_const, true_and] at h
      simp [parseS7, h]
      rfl
  split
  · next hp =>
      subst hp
      simp only [String.reduceEq, false_implies, forall_const, true_and] at h
      simp [parseMC, h]
      rfl
  split
  · next hp =>
      subst hp
      simp only [String.reduceEq, false_implies, forall_const, true_and] at h
      simp [parseLS, h]
      rfl
  · rfl

/-- The chains of comparisons are the table. -/
theorem parseParts_eq (protocol spelling : String) (parts : List String) :
    parseParts protocol spelling parts =
      (areaOf protocol spelling).elim (.ok ⟨protocol, spelling, 0, true⟩)
        fun a => (stoiU16 (a.indexPart parts)).map a.ref := by
  cases harea : areaOf protocol spelling with
  | none => exact parseParts_none parts (ne_of_areaOf_eq_none harea)
  | some a =>
      obtain ⟨hmem, rfl⟩ := spelling_of_areaOf harea
      exact parseParts_spelling parts hmem

theorem parseAddress_parts {addr protocol spelling : String} {rest : List String}
    (h : addressParts addr = protocol :: spelling :: rest) (hrest : rest ≠ []) :
    parseAddress addr =
      (areaOf protocol spelling).elim (.ok ⟨protocol, spelling, 0, true⟩)
        fun a => (stoiU16 (a.indexPart (addressParts addr))).map a.ref := by
  have hlen : ¬ (addressParts addr).length < 3 := by
    have := List.length_pos_iff.mpr hrest
    rw [h, List.length_cons, List.length_cons]
    omega
  rw [← parseParts_eq, parseAddress, if_neg hlen, h]
  rfl

theorem parseAddress_ok {addr : String} {ref : MemoryRef} (h : parseAddress addr = .ok ref) :
    ∃ protocol spelling rest, addressParts addr = protocol :: spelling :: rest ∧ rest ≠ [] ∧
      ((∃ a index, areaOf protocol spelling = some a ∧
          stoiU16 (a.indexPart (addressParts addr)) = .ok index ∧ ref = a.ref index) ∨
        (areaOf protocol spelling = none ∧ ref = ⟨protocol, spelling, 0, true⟩)) := by
  obtain ⟨protocol, spelling, third, rest, hparts⟩ : ∃ protocol spelling third rest,
      addressParts addr = protocol :: spelling :: third :: rest := by
    match hparts : addressParts addr with
    | protocol :: spelling :: third :: rest => exact ⟨_, _, _, _, rfl⟩
    | [] | [_] | [_, _] =>
        rw [parseAddress, hparts] at h
        exact absurd h (by simp)
  refine ⟨protocol, spelling, third :: rest, hparts, List.cons_ne_nil _ _, ?_⟩
  rw [parseAddress_parts hparts (List.cons_ne_nil _ _)] at h
  cases harea : areaOf protocol spelling with
  | none =>
      rw [harea, Option.elim_none] at h
      exact Or.inr ⟨rfl, (Except.ok.inj h).symm⟩
  | some a =>
      rw [harea, Option.elim_some] at h
      cases hindex : stoiU16 (a.indexPart (addressParts addr)) with
      | error e => rw [hindex] at h; cases h
      | ok index =>
          rw [hindex] at h
          exact Or.inl ⟨a, index, rfl, hindex, (Except.ok.inj h).symm⟩

/-! ## Text -/

/-- `PROTOCOL.AREA.INDEX`. -/
def shortForm (protocol spelling index : String) : String :=
  protocol ++ "." ++ spelling ++ "." ++ index

/-- `PROTOCOL.AREA.W.INDEX`. -/
def wordForm (protocol spelling index : String) : String :=
  protocol ++ "." ++ spelling ++ "." ++ "W" ++ "." ++ index

theorem toList_dot : ".".toList = ['.'] := rfl

section Parts

variable {protocol spelling index addr : String}

theorem addressParts_short (hp : '.' ∉ protocol.toList) (hs : '.' ∉ spelling.toList)
    (hi : '.' ∉ index.toList) (hne : index.toList ≠ []) :
    addressParts (shortForm protocol spelling index) = [protocol, spelling, index] := by
  simp only [addressParts, shortForm, String.toList_append, toList_dot, List.append_assoc,
    List.cons_append, List.nil_append, splitDots_eq]
  rw [Text.getlines_append hp, Text.getlines_append hs, Text.getlines_eq_singleton hi hne]
  simp only [List.map_cons, List.map_nil, String.ofList_toList]

theorem addressParts_word (hp : '.' ∉ protocol.toList) (hs : '.' ∉ spelling.toList)
    (hi : '.' ∉ index.toList) (hne : index.toList ≠ []) :
    addressParts (wordForm protocol spelling index) = [protocol, spelling, "W", index] := by
  have hw : '.' ∉ "W".toList := by decide
  simp only [addressParts, wordForm, String.toList_append, toList_dot, List.append_assoc,
    List.cons_append, List.nil_append, splitDots_eq]
  rw [Text.getlines_append hp, Text.getlines_append hs, Text.getlines_append hw,
    Text.getlines_eq_singleton hi hne]
  simp only [List.map_cons, List.map_nil, String.ofList_toList]

/-- The parts make up the address, unless it ends in a dot. -/
theorem intercalate_addressParts (h : addr.toList.getLast? ≠ some '.') :
    ['.'].intercalate ((addressParts addr).map String.toList) = addr.toList := by
  have hid : (String.toList ∘ String.ofList) = id := funext fun _ => String.toList_ofList
  rw [addressParts, List.map_map, hid, List.map_id, splitDots_eq, Text.intercalate_getlines h]

theorem eq_shortForm (h : addr.toList.getLast? ≠ some '.')
    (hparts : addressParts addr = [protocol, spelling, index]) :
    addr = shortForm protocol spelling index := by
  have htext := intercalate_addressParts h
  rw [hparts] at htext
  rw [← String.toList_inj, ← htext]
  simp [shortForm, List.intercalate, List.intersperse]

theorem eq_wordForm (h : addr.toList.getLast? ≠ some '.')
    (hparts : addressParts addr = [protocol, spelling, "W", index]) :
    addr = wordForm protocol spelling index := by
  have htext := intercalate_addressParts h
  rw [hparts] at htext
  rw [← String.toList_inj, ← htext]
  simp [wordForm, List.intercalate, List.intersperse]

end Parts

end VPlc
