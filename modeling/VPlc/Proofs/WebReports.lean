import VPlc.Proofs.AddressSpec
import VPlc.Proofs.LoaderSpec
import VPlc.Web.MemoryApi

/-!
# Writes the web server says were made

`POST /api/memory/write` asks three functions one after the other: the address has
to be there and the value not negative, the parser must not throw, and then the
value goes, cut down to sixteen bits, into the cell the reference names, if it
names one. None of them tells the next what went wrong, so whatever gets past the
parser is answered 200. With no rules, what is then said to be written is written
just if the address is plain, its cell exists and the value is one it can hold
(`memory_write_told_iff`).
-/

namespace VPlc

open Text (Numeral)

namespace PlcMemory

/-- The values a cell of the area holds. -/
def InRange (a : Area) (value : Int) : Prop :=
  0 ≤ value ∧ value ≤ if a.isBit then 1 else 65535

instance (a : Area) (value : Int) : Decidable (InRange a value) :=
  inferInstanceAs (Decidable (_ ∧ _))

/-- The address is that of the cell, in words the guide has. -/
def Denotes (m : PlcMemory) (address : String) (c : Cell) : Prop :=
  ∃ i : UInt16, Spells address c.area i ∧ i.toNat = c.index ∧ c.index < m.size c.area

/-- The write took place in the cell: `m'` is what it has left of `m`. -/
structure Written (m m' : PlcMemory) (address : String) (value : Int) (c : Cell) : Prop where
  denoted : m.Denotes address c
  fits : InRange c.area value
  read : ∃ v, m'.getMemoryRead address = .ok v ∧ (v.toNat : Int) = value
  others : ∀ k : Cell, k ≠ c → m'.get k.area k.index = m.get k.area k.index

/-- A write that is answered 200 took place. -/
def Told (m : PlcMemory) (body : Json) (address : String) (value : Int) : Prop :=
  (m.postMemoryWriteBody (.ok body)).2.status = 200 →
    ∃ c, Written m (m.postMemoryWriteBody (.ok body)).1 address value c

/-- The address is empty or makes the parser throw, or the value is negative as an `int`. -/
def Refused (address : String) (value : Int) : Prop :=
  address.isEmpty = true ∨ Json.toInt value < 0 ∨ ∃ e, parseAddress address = .error e

section Write

variable {m : PlcMemory} {address : String} {value : Int} {members : List (String × Json)}

theorem postMemoryWriteBody_eq (haddress : members.lookup "address" = some (.string address))
    (hvalue : members.lookup "value" = some (.integer value)) :
    m.postMemoryWriteBody (.ok (.object members)) =
      m.postMemoryWrite address (Json.toInt value) := by
  have hgot : (Json.object members).value Json.getString "address" "" = .ok address :=
    Json.value_of_lookup haddress
  have hint : (Json.object members).value Json.getInt "value" (-1) =
      .ok (Json.toInt value) := Json.value_of_lookup hvalue
  simp only [postMemoryWriteBody, hgot, hint]

theorem postMemoryWrite_refused (h : Refused address value) :
    (m.postMemoryWrite address (Json.toInt value)).2.status = 400 := by
  unfold postMemoryWrite
  split
  · rfl
  · next hpassed =>
      obtain ⟨e, he⟩ : ∃ e, parseAddress address = .error e := by
        rcases h with h | h | h
        · exact absurd (Or.inl h) hpassed
        · exact absurd (Or.inr h) hpassed
        · exact h
      rw [he]

theorem postMemoryWrite_parsed (hrules : m.mappings = []) (h : ¬ Refused address value)
    {ref : MemoryRef} (hparse : parseAddress address = .ok ref) :
    m.postMemoryWrite address (Json.toInt value) =
      (m.writeValue ref (UInt16.ofInt (Json.toInt value)), ⟨200, "Success"⟩) := by
  have hpassed : ¬ (address.isEmpty = true ∨ Json.toInt value < 0) := fun hbad =>
    h (hbad.elim Or.inl fun hneg => Or.inr (Or.inl hneg))
  have hrules' : (m.writeValue ref (UInt16.ofInt (Json.toInt value))).mappings = [] := by
    rw [mappings_writeValue, hrules]
  rw [postMemoryWrite, if_neg hpassed, hparse]
  dsimp only
  rw [webWrite, syncMappings_of_nil hrules']

theorem InRange.le {a : Area} (h : InRange a value) : 0 ≤ value ∧ value ≤ 65535 := by
  refine ⟨h.1, ?_⟩
  have hle := h.2
  split at hle
  · omega
  · exact hle

theorem InRange.toNat {a : Area} (h : InRange a value) :
    ((UInt16.ofInt (Json.toInt value)).toNat : Int) = value := by
  obtain ⟨hnonneg, hle⟩ := h.le
  have hint : Json.toInt value = value := Int.bmod_eq_of_le (by omega) (by omega)
  rw [hint, toNat_ofInt]
  omega

theorem InRange.norm {a : Area} (h : InRange a value) :
    a.norm (UInt16.ofInt (Json.toInt value)) = UInt16.ofInt (Json.toInt value) := by
  cases hbit : a.isBit with
  | false => exact Area.norm_of_word hbit _
  | true =>
      have hle := h.2
      rw [hbit, if_pos rfl] at hle
      have hvalue := h.toNat
      exact a.norm_of_le_one (by omega)

/-- The cell an address denotes is the one the parser finds. -/
theorem Denotes.parsed {c : Cell} (h : m.Denotes address c) :
    ∃ ref, parseAddress address = .ok ref ∧ m.cell ref = some c := by
  obtain ⟨i, hspells, hindex, hlt⟩ := h
  exact ⟨c.area.ref i, hspells.parseAddress,
    (cell_eq_some m).mpr ⟨Area.area?_ref, hindex, hlt⟩⟩

/-- And a plain address the parser takes denotes one if its number is small enough. -/
theorem denotes_of_plain {a : Area} {ref : MemoryRef} (h : Plain address a)
    (hparse : parseAddress address = .ok ref) (hlt : a.indexNumber address < m.size a) :
    m.Denotes address ⟨a, a.indexNumber address⟩ := by
  obtain ⟨hspells, hindex, -⟩ := h.spells hparse
  exact ⟨ref.index, hspells, hindex, hlt⟩

theorem written_writeValue {ref : MemoryRef} {c : Cell} (hdenotes : m.Denotes address c)
    (hparse : parseAddress address = .ok ref) (hfits : InRange c.area value)
    (hne : address.isEmpty = false) :
    Written m (m.writeValue ref (UInt16.ofInt (Json.toInt value))) address value c := by
  obtain ⟨ref', hparse', hcell⟩ := hdenotes.parsed
  obtain rfl : ref' = ref := Except.ok.inj (hparse'.symm.trans hparse)
  have hread : (m.writeValue ref' (UInt16.ofInt (Json.toInt value))).readValue ref' =
      UInt16.ofInt (Json.toInt value) := by
    rw [readValue_writeValue_self, hcell]
    exact hfits.norm
  refine ⟨hdenotes, hfits, ⟨_, ?_, hfits.toNat⟩, ?_⟩
  · rw [getMemoryRead, hne, if_neg Bool.false_ne_true, hparse]
    exact congrArg Except.ok hread
  · intro k hk
    have hview := congrFun (@view_writeValue m ref' (UInt16.ofInt (Json.toInt value))) (some k)
    rwa [hcell, Function.update_of_ne (fun h => hk (Option.some.inj h))] at hview

end Write

/-- With no rules the answer can be trusted just if the write is refused, or the
address is plain with a number that its area has and a value that its cells hold. -/
theorem memory_write_told_iff {m : PlcMemory} (hrules : m.mappings = [])
    {members : List (String × Json)} {address : String} {value : Int}
    (haddress : members.lookup "address" = some (.string address))
    (hvalue : members.lookup "value" = some (.integer value)) :
    Told m (.object members) address value ↔
      Refused address value ∨
        ∃ a, Plain address a ∧ a.indexNumber address < m.size a ∧ InRange a value := by
  rw [Told, postMemoryWriteBody_eq haddress hvalue]
  by_cases hrefused : Refused address value
  · refine iff_of_true (fun h => ?_) (Or.inl hrefused)
    rw [postMemoryWrite_refused hrefused] at h
    cases h
  cases hparse : parseAddress address with
  | error e => exact absurd (Or.inr (Or.inr ⟨e, hparse⟩)) hrefused
  | ok ref =>
      rw [postMemoryWrite_parsed hrules hrefused hparse]
      constructor
      · intro h
        obtain ⟨c, hwritten⟩ := h rfl
        obtain ⟨i, hspells, hindex, hlt⟩ := hwritten.denoted
        have hnumber : c.area.indexNumber address = c.index := by
          rw [← (hspells.plain.spells hspells.parseAddress).2.1, Area.index_ref, hindex]
        exact Or.inr ⟨c.area, hspells.plain, hnumber ▸ hlt, hwritten.fits⟩
      · rintro (h | ⟨a, hplain, hlt, hfits⟩) -
        · exact absurd h hrefused
        · have hne : address.isEmpty = false :=
            (Bool.not_eq_true _).mp fun h => hrefused (Or.inl h)
          exact ⟨_, written_writeValue (denotes_of_plain hplain hparse hlt) hparse hfits hne⟩

/-- A seven for an `MC` register is written. -/
theorem memory_write_told_seven :
    Told default (.object [("address", .string "MC.D.5"), ("value", .integer 7)]) "MC.D.5" 7 := by
  have hspells : Spells "MC.D.5" .mcD 5 :=
    ⟨"D", "5", by decide, Numeral.toString 5, Or.inl rfl⟩
  exact (memory_write_told_iff rfl rfl rfl).mpr
    (Or.inr ⟨.mcD, hspells.plain, by decide, by decide⟩)

/-- 65536 for a holding register is not, and neither is anything for a register
that does not exist, but the answer is 200. -/
theorem memory_write_untold :
    ¬ Told default (.object [("address", .string "MODBUS.HR.0"), ("value", .integer 65536)])
        "MODBUS.HR.0" 65536 ∧
      ¬ Told default (.object [("address", .string "MODBUS.HR.1024"), ("value", .integer 1)])
        "MODBUS.HR.1024" 1 := by
  constructor
  · intro h
    obtain ⟨c, hwritten⟩ := h rfl
    have hle := hwritten.fits.le
    omega
  · intro h
    obtain ⟨c, hwritten⟩ := h rfl
    obtain ⟨ref, hparse, hcell⟩ := hwritten.denoted.parsed
    obtain rfl : Area.hr.ref 1024 = ref := Except.ok.inj hparse
    obtain ⟨harea, hindex, hlt⟩ := (cell_eq_some _).mp hcell
    have hsize : default.size .hr = 1024 := Array.size_replicate
    rw [← hindex, ← Option.some.inj harea, hsize] at hlt
    exact absurd hlt (by decide)

end PlcMemory

end VPlc
