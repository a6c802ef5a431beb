import VPlc.Core.Mapping

/-!
# The memory map as a table

The guide lists the areas of each protocol with the spellings an address may use
for them. `spellings` is that list. `areaOf` looks a spelling up, and an area
with an index is a reference (`Area.ref`). The parser reaches the same areas by a
chain of comparisons; that it is this table is proved where the parser is.
-/

namespace VPlc

namespace Area

def protocol : Area → String
  | coil | di | ir | hr => "MODBUS"
  | s7Pe | s7Pa | s7Db1 | s7Db2 => "S7"
  | mcX | mcY | mcM | mcL | mcB | mcF | mcSM => "MC"
  | mcD | mcW | mcR | mcZR | mcSD => "MC"
  | lsI | lsQ | lsM | lsW => "LS"

def name : Area → String
  | coil => "COIL" | di => "DI" | ir => "IR" | hr => "HR"
  | s7Pe => "PE" | s7Pa => "PA" | s7Db1 => "DB1" | s7Db2 => "DB2"
  | mcX => "X" | mcY => "Y" | mcM => "M" | mcL => "L" | mcB => "B" | mcF => "F" | mcSM => "SM"
  | mcD => "D" | mcW => "W" | mcR => "R" | mcZR => "ZR" | mcSD => "SD"
  | lsI => "I" | lsQ => "Q" | lsM => "M" | lsW => "W"

/-- The areas whose addresses may have a `W` before the index. -/
def hasSubType : Area → Bool
  | s7Db1 | s7Db2 => true
  | mcD | mcW | mcR | mcZR | mcSD => true
  | _ => false

def ref (a : Area) (index : UInt16) : MemoryRef := ⟨a.protocol, a.name, index, a.isBit⟩

end Area

/-- The spellings of the guide. -/
def spellings : List (String × Area) :=
  [("COIL", .coil), ("C", .coil),
   ("DISCRETE_INPUT", .di), ("DI", .di), ("I", .di),
   ("INPUT_REGISTER", .ir), ("IR", .ir),
   ("HOLDING_REGISTER", .hr), ("HR", .hr),
   ("PE", .s7Pe), ("PA", .s7Pa), ("DB1", .s7Db1), ("DB2", .s7Db2),
   ("X", .mcX), ("Y", .mcY), ("M", .mcM), ("L", .mcL), ("B", .mcB), ("F", .mcF), ("SM", .mcSM),
   ("D", .mcD), ("W", .mcW), ("R", .mcR), ("ZR", .mcZR), ("SD", .mcSD),
   ("I", .lsI), ("Q", .lsQ), ("M", .lsM), ("W", .lsW)]

/-- The area a protocol has under a spelling, if any. -/
def areaOf (protocol spelling : String) : Option Area :=
  (spellings.find? fun s => s.1 = spelling ∧ s.2.protocol = protocol).map (·.2)

namespace Area

variable {a b : Area} {i j : UInt16}

@[simp] theorem index_ref : (a.ref i).index = i := rfl

@[simp] theorem area?_ref : (a.ref i).area? = some a := by
  cases a <;> rfl

theorem ref_inj : a.ref i = b.ref j ↔ a = b ∧ i = j := by
  constructor
  · intro h
    have harea := congrArg MemoryRef.area? h
    rw [area?_ref, area?_ref] at harea
    exact ⟨Option.some.inj harea, congrArg MemoryRef.index h⟩
  · rintro ⟨rfl, rfl⟩
    rfl

end Area

theorem areaOf_name (a : Area) : areaOf a.protocol a.name = some a := by
  cases a <;> rfl

theorem Area.eq_of_name {a b : Area} (hprotocol : a.protocol = b.protocol)
    (hname : a.name = b.name) : a = b := by
  have harea := areaOf_name a
  rw [hprotocol, hname, areaOf_name b] at harea
  exact (Option.some.inj harea).symm

/-- Protocols and spellings overlap, but no pair of them means two areas. -/
theorem areaOf_spelling {s : String × Area} (h : s ∈ spellings) :
    areaOf s.2.protocol s.1 = some s.2 := by
  revert s
  decide

theorem ne_of_areaOf_eq_none {protocol spelling : String} (h : areaOf protocol spelling = none) :
    ∀ s ∈ spellings, s.2.protocol = protocol → spelling ≠ s.1 := by
  rintro s hs rfl rfl
  rw [areaOf_spelling hs] at h
  cases h

theorem spelling_of_areaOf {protocol spelling : String} {a : Area}
    (h : areaOf protocol spelling = some a) :
    (spelling, a) ∈ spellings ∧ a.protocol = protocol := by
  obtain ⟨s, hfind, rfl⟩ := Option.map_eq_some_iff.mp h
  have hmatch := List.find?_some hfind
  have hmem := List.mem_of_find?_eq_some hfind
  rw [decide_eq_true_eq] at hmatch
  obtain ⟨rfl, hprotocol⟩ := hmatch
  exact ⟨hmem, hprotocol⟩

end VPlc
