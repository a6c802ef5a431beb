import VPlc.Proofs.AddressTable
import VPlc.Proofs.Stoi

/-!
# What an address says and what the parser hears

`Spells addr a i`: the address has one of the two forms of the guide, its area is
`a` under one of the spellings, and its index is a numeral for `i`. The parser
hears every such address right (`parseAddress_spells`).

It also accepts others. There is no final `else` in its dispatch, parts it has
no use for are not looked at, `stoi` stops at the first character that is no
digit, and the narrowing to sixteen bits wraps. `Plain` is what is left when
none of that happens, and of the accepted addresses just the plain ones say
what the parser hears (`parseAddress_plain`).
-/

namespace VPlc

open Text (Numeral)

/-- The address says `i` in the area `a`, in words the guide has. -/
def Spells (addr : String) (a : Area) (i : UInt16) : Prop :=
  ∃ spelling index : String, (spelling, a) ∈ spellings ∧ Numeral index.toList i.toNat ∧
    (addr = shortForm a.protocol spelling index ∨
      a.hasSubType = true ∧ addr = wordForm a.protocol spelling index)

/-- The number written in an address of the area. -/
def Area.indexNumber (a : Area) (addr : String) : Nat :=
  digitsVal (a.indexPart (addressParts addr)).toList

/-- An address with nothing in it for the parser to overlook. -/
structure Plain (addr : String) (a : Area) : Prop where
  ended : addr.toList.getLast? ≠ some '.'
  area : areaOf ((addressParts addr).getD 0 "") ((addressParts addr).getD 1 "") = some a
  parts : (addressParts addr).length = 3 ∨
    (addressParts addr).length = 4 ∧ (addressParts addr).getD 2 "" = "W" ∧ a.hasSubType = true
  digits : ∀ c ∈ (a.indexPart (addressParts addr)).toList, c.isDigit = true
  fits : a.indexNumber addr < 65536

theorem dot_not_mem_protocol (a : Area) : '.' ∉ a.protocol.toList := by
  cases a <;> decide

theorem dot_not_mem_spelling {s : String × Area} (h : s ∈ spellings) : '.' ∉ s.1.toList := by
  revert s
  decide

theorem indexPart_short {a : Area} {protocol spelling index : String} :
    a.indexPart [protocol, spelling, index] = index := by
  have hword : wordIndexPart [protocol, spelling, index] = index :=
    if_neg (fun h => absurd h.1 (show ¬ 3 = 4 by decide))
  rw [Area.indexPart, hword]
  exact ite_self _

theorem indexPart_word {a : Area} (h : a.hasSubType = true) {protocol spelling index : String} :
    a.indexPart [protocol, spelling, "W", index] = index := by
  rw [Area.indexPart, if_pos h]
  exact if_pos ⟨rfl, rfl⟩

namespace Spells

variable {addr : String} {a : Area} {i : UInt16}

theorem parts (h : Spells addr a i) :
    ∃ spelling index rest, (spelling, a) ∈ spellings ∧ Numeral index.toList i.toNat ∧
      addressParts addr = a.protocol :: spelling :: rest ∧
      a.indexPart (addressParts addr) = index ∧
      (rest = [index] ∨ a.hasSubType = true ∧ rest = ["W", index]) := by
  obtain ⟨spelling, index, hmem, hnum, hform⟩ := h
  have hdot : '.' ∉ index.toList := hnum.not_mem (by decide)
  have hp := dot_not_mem_protocol a
  have hs : '.' ∉ spelling.toList := dot_not_mem_spelling hmem
  rcases hform with rfl | ⟨hsub, rfl⟩
  · have hparts := addressParts_short hp hs hdot hnum.ne_nil
    refine ⟨spelling, index, [index], hmem, hnum, hparts, ?_, Or.inl rfl⟩
    rw [hparts, indexPart_short]
  · have hparts := addressParts_word hp hs hdot hnum.ne_nil
    refine ⟨spelling, index, ["W", index], hmem, hnum, hparts, ?_, Or.inr ⟨hsub, rfl⟩⟩
    rw [hparts, indexPart_word hsub]

theorem parseAddress (h : Spells addr a i) : parseAddress addr = .ok (a.ref i) := by
  obtain ⟨spelling, index, rest, hmem, hnum, hparts, hindex, hrest⟩ := h.parts
  have hne : rest ≠ [] := by
    rcases hrest with rfl | ⟨-, rfl⟩ <;> exact List.cons_ne_nil _ _
  have hlt := i.toNat_lt
  rw [parseAddress_parts hparts hne, areaOf_spelling hmem, Option.elim_some, hindex,
    stoiU16_numeral hnum (by omega), UInt16.ofNat_toNat]
  rfl

theorem getLast?_ne (h : Spells addr a i) : addr.toList.getLast? ≠ some '.' := by
  obtain ⟨spelling, index, -, hnum, hform⟩ := h
  have hlast : addr.toList.getLast? = index.toList.getLast? := by
    obtain ⟨c, cs, hcs⟩ := List.exists_cons_of_ne_nil hnum.ne_nil
    rcases hform with rfl | ⟨-, rfl⟩ <;>
      simp only [shortForm, wordForm, String.toList_append, hcs, List.getLast?_append_cons]
  rw [hlast]
  intro hdot
  exact hnum.not_mem (by decide) (List.mem_of_getLast? hdot)

theorem plain (h : Spells addr a i) : Plain addr a := by
  obtain ⟨spelling, index, rest, hmem, hnum, hparts, hindex, hrest⟩ := h.parts
  have hlt := i.toNat_lt
  have hnumber : a.indexNumber addr = i.toNat := by
    rw [Area.indexNumber, hindex, digitsVal_eq, hnum.value]
  constructor
  case ended => exact h.getLast?_ne
  case area =>
      rw [hparts]
      exact areaOf_spelling hmem
  case parts =>
      rw [hparts]
      rcases hrest with rfl | ⟨hsub, rfl⟩
      · exact Or.inl rfl
      · exact Or.inr ⟨rfl, rfl, hsub⟩
  case digits =>
      rw [hindex]
      exact hnum.digits
  case fits =>
      rw [hnumber]
      exact hlt

end Spells

/-- What the parser takes of a plain address is what it says. -/
theorem Plain.spells {addr : String} {a : Area} {ref : MemoryRef} (h : Plain addr a)
    (hok : parseAddress addr = .ok ref) :
    Spells addr a ref.index ∧ ref.index.toNat = a.indexNumber addr ∧ ref = a.ref ref.index := by
  obtain ⟨protocol, spelling, rest, hparts, hrest, hcases⟩ := parseAddress_ok hok
  have harea : areaOf protocol spelling = some a := by
    have h' := h.area
    rwa [hparts] at h'
  rcases hcases with ⟨b, index, hb, hindex, rfl⟩ | ⟨hnone, -⟩
  · obtain rfl : b = a := Option.some.inj (hb.symm.trans harea)
    obtain ⟨hnum, hvalue⟩ := numeral_of_stoiU16 hindex h.digits
    have hnumber : index.toNat = b.indexNumber addr := by
      rw [hvalue]
      exact UInt16.toNat_ofNat_of_lt' h.fits
    obtain ⟨hmem, rfl⟩ := spelling_of_areaOf harea
    refine ⟨⟨spelling, b.indexPart (addressParts addr), hmem, ?_, ?_⟩, hnumber, rfl⟩
    · rwa [Area.index_ref, hnumber]
    · rcases h.parts with hthree | ⟨hfour, hw, hsub⟩
      · obtain ⟨third, rfl⟩ : ∃ third, rest = [third] := by
          rw [hparts] at hthree
          exact List.length_eq_one_iff.mp (by simpa using hthree)
        left
        rw [hparts, indexPart_short]
        exact eq_shortForm h.ended hparts
      · obtain ⟨third, fourth, rfl⟩ : ∃ third fourth, rest = [third, fourth] := by
          rw [hparts] at hfour
          exact List.length_eq_two.mp (by simpa using hfour)
        obtain rfl : third = "W" := by rwa [hparts] at hw
        right
        rw [hparts, indexPart_word hsub]
        exact ⟨hsub, eq_wordForm h.ended hparts⟩
  · rw [hnone] at harea
    cases harea

theorem spells_d : Spells "MC.D.W.12" .mcD 12 :=
  ⟨"D", "12", by decide, Numeral.toString 12, Or.inr ⟨rfl, rfl⟩⟩

theorem spells_m : Spells "LS.M.7" .lsM 7 :=
  ⟨"M", "7", by decide, Numeral.toString 7, Or.inl rfl⟩

/-- The parser means what an accepted address says just when the address is plain,
and two plain addresses with different numbers are never the same cell. -/
theorem parseAddress_plain {addr : String} {ref : MemoryRef}
    (hok : parseAddress addr = .ok ref) :
    ((∃ a, Spells addr a ref.index) ↔ ∃ a, Plain addr a) ∧
      ∀ a addr' ref' a', Plain addr a → parseAddress addr' = .ok ref' → Plain addr' a' →
        a.indexNumber addr ≠ a'.indexNumber addr' →
        ∀ (m : PlcMemory) (c : Cell), m.cell ref = some c → m.cell ref' ≠ some c := by
  refine ⟨⟨fun h => ?_, fun h => ?_⟩, ?_⟩
  · obtain ⟨a, h⟩ := h
    exact ⟨a, h.plain⟩
  · obtain ⟨a, h⟩ := h
    exact ⟨a, (h.spells hok).1⟩
  · intro a addr' ref' a' h hok' h' hne m c hc hc'
    have hindex := (PlcMemory.cell_eq_some m).mp hc
    have hindex' := (PlcMemory.cell_eq_some m).mp hc'
    have hnumber := (h.spells hok).2.1
    have hnumber' := (h'.spells hok').2.1
    omega

/-- Sixty-five thousand five hundred and forty-one is heard as five. -/
theorem parseAddress_wraps :
    parseAddress "MC.D.65541" = .ok (Area.mcD.ref 5) ∧
      parseAddress "MC.D.5" = .ok (Area.mcD.ref 5) ∧
      ¬ ∃ a, Spells "MC.D.65541" a 5 := by
  refine ⟨rfl, rfl, ?_⟩
  rintro ⟨a, h⟩
  have harea := h.plain.area
  have hfits := h.plain.fits
  obtain rfl : Area.mcD = a := Option.some.inj harea
  revert hfits
  decide

/-- The other ways an address is accepted that does not mean what it says. -/
example : parseAddress "MODBUS.COIL.5." = .ok (Area.coil.ref 5) ∧
    parseAddress "S7.PE.5.7" = .ok (Area.s7Pe.ref 5) ∧
    parseAddress "LS.W. -1x" = .ok (Area.lsW.ref 65535) ∧
    parseAddress "PROFINET.IO.five" = .ok ⟨"PROFINET", "IO", 0, true⟩ := ⟨rfl, rfl, rfl, rfl⟩

theorem parseAddress_plain_dm :
    (∃ a, Spells "MC.D.W.12" a 12) ∧
      PlcMemory.default.cell (Area.lsM.ref 7) ≠ some ⟨.mcD, 12⟩ := by
  have hd : Plain "MC.D.W.12" .mcD := spells_d.plain
  have hm : Plain "LS.M.7" .lsM := spells_m.plain
  obtain ⟨hiff, hapart⟩ := @parseAddress_plain "MC.D.W.12" (Area.mcD.ref 12) rfl
  exact ⟨hiff.mpr ⟨_, hd⟩, hapart .mcD "LS.M.7" (Area.lsM.ref 7) .lsM hd rfl hm (by decide)
    PlcMemory.default ⟨.mcD, 12⟩ rfl⟩

/-- An address of the guide is heard as it is said, and two of them are heard
alike just when they say the same. -/
theorem parseAddress_spells {addr : String} {a : Area} {i : UInt16} (h : Spells addr a i) :
    parseAddress addr = .ok ⟨a.protocol, a.name, i, a.isBit⟩ ∧
      ∀ addr' b j, Spells addr' b j →
        (parseAddress addr' = parseAddress addr ↔
          b.protocol = a.protocol ∧ b.name = a.name ∧ j = i) := by
  refine ⟨h.parseAddress, ?_⟩
  intro addr' b j h'
  rw [h.parseAddress, h'.parseAddress, Except.ok.injEq]
  constructor
  · intro heq
    obtain ⟨rfl, rfl⟩ := Area.ref_inj.mp heq
    exact ⟨rfl, rfl, rfl⟩
  · rintro ⟨hprotocol, hname, rfl⟩
    rw [Area.eq_of_name hprotocol hname]

theorem parseAddress_spells_di :
    parseAddress "MODBUS.DISCRETE_INPUT.0300" = .ok ⟨"MODBUS", "DI", 300, true⟩ ∧
      parseAddress "MODBUS.I.300" = parseAddress "MODBUS.DISCRETE_INPUT.0300" := by
  have hdigits : ∀ c ∈ "0300".toList, c.isDigit = true := List.all_eq_true.mp rfl
  have hlong : Spells "MODBUS.DISCRETE_INPUT.0300" .di 300 :=
    ⟨"DISCRETE_INPUT", "0300", by decide, ⟨by decide, hdigits, by decide⟩, Or.inl rfl⟩
  have hshort : Spells "MODBUS.I.300" .di 300 :=
    ⟨"I", "300", by decide, Numeral.toString 300, Or.inl rfl⟩
  have hheard := parseAddress_spells hlong
  exact ⟨hheard.1, (hheard.2 _ _ _ hshort).mpr ⟨rfl, rfl, rfl⟩⟩

end VPlc
