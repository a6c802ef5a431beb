import VPlc.Proofs.Stoi
import VPlc.Proofs.XgtBlocks
import VPlc.Xgt.Name

/-!
# Two names for one cell

A name the server takes leads to the cell its last two numbers say
(`resolveAddress_bytes`), and a write through one name is seen through another
just if both lead to one cell (`reaches_iff`). Three things are lost on the way:
the area of a word, the numbers of a bit before the last two, and whatever does
not fit in sixteen bits. So different names meet (`xgt_names_unambiguous_iff`).
-/

namespace VPlc

open Bytes (leBytes le16)
open Text (Numeral getlines)

namespace XgtServer

/-! ## From bytes to numbers -/

section Resolve

variable {x : VarName} {addr : LsAddress}

theorem toNat_lt_of_isDigit {c : Char} (h : c.isDigit = true) : c.toNat < 256 := by
  simp only [Char.isDigit, Bool.and_eq_true, decide_eq_true_eq, UInt32.le_iff_toNat_le] at h
  have hle : c.toNat ≤ 57 := h.2
  omega

theorem chars_map_ofNat {cs : List Char} (h : ∀ c ∈ cs, c.toNat < 256) :
    chars (cs.map fun c => UInt8.ofNat c.toNat) = cs := by
  induction cs with
  | nil => rfl
  | cons c cs ih =>
      obtain ⟨hc, hcs⟩ := List.forall_mem_cons.mp h
      have hbyte : (UInt8.ofNat c.toNat).toNat = c.toNat := UInt8.toNat_ofNat_of_lt' hc
      have hchars := ih hcs
      rw [chars] at hchars ⊢
      rw [List.map_cons, List.map_cons, hchars, hbyte, Char.ofNat_toNat]

namespace VarName

theorem decimal_numeral (n : Nat) : Numeral (decimal n) n := Numeral.toString n

theorem dot_not_mem_decimal (n : Nat) : '.' ∉ decimal n :=
  (decimal_numeral n).not_mem (by decide)

theorem mem_intercalate_decimal {numbers : List Nat} {c : Char}
    (h : c ∈ ['.'].intercalate (numbers.map decimal)) : c = '.' ∨ c.isDigit = true := by
  induction numbers with
  | nil => cases h
  | cons n numbers ih =>
      cases numbers with
      | nil =>
          rw [List.map_singleton, List.intercalate_singleton] at h
          exact Or.inr ((decimal_numeral n).digits c h)
      | cons k numbers =>
          rw [List.map_cons, List.map_cons, List.intercalate_cons_cons, List.append_assoc,
            List.mem_append, List.mem_append] at h
          rcases h with h | h | h
          · exact Or.inr ((decimal_numeral n).digits c h)
          · exact Or.inl (List.mem_singleton.mp h)
          · exact ih h

theorem Proper.text_lt (hx : x.Proper) : ∀ c ∈ x.text, c.toNat < 256 := by
  have harea : x.area.toNat < 256 := by
    rcases hx.area with h | h | h
    · rw [h]; decide
    · rw [h]; decide
    · rw [h]; decide
  cases x with
  | bit a numbers =>
      refine List.forall_mem_cons.mpr ⟨by decide, List.forall_mem_cons.mpr ⟨harea, ?_⟩⟩
      refine List.forall_mem_cons.mpr ⟨by decide, fun c hc => ?_⟩
      rcases mem_intercalate_decimal hc with rfl | hdigit
      · decide
      · exact toNat_lt_of_isDigit hdigit
  | word a number =>
      refine List.forall_mem_cons.mpr ⟨by decide, List.forall_mem_cons.mpr ⟨harea, ?_⟩⟩
      refine List.forall_mem_cons.mpr ⟨by decide, fun c hc => ?_⟩
      exact toNat_lt_of_isDigit ((decimal_numeral number).digits c hc)

theorem Proper.chars_bytes (hx : x.Proper) : chars x.bytes = x.text :=
  chars_map_ofNat hx.text_lt

end VarName

open VarName (decimal decimal_numeral dot_not_mem_decimal)

theorem stoi_decimal {n : Nat} {z : Int}
    (h : (stoi (String.ofList (decimal n))).toOption = some z) : z = n := by
  have hnum : Numeral (String.ofList (decimal n)).toList n := by
    rw [String.toList_ofList]
    exact decimal_numeral n
  rw [stoi_of_digits hnum.digits hnum.ne_nil, digitsVal_eq, hnum.value] at h
  split at h
  · cases h
  · exact (Option.some.inj h).symm

theorem mapM_decimal {numbers : List Nat} {nums : List Int}
    (h : (numbers.map decimal).mapM (fun token => (stoi (String.ofList token)).toOption) =
      some nums) : nums = List.map (fun n : Nat => (n : Int)) numbers := by
  induction numbers generalizing nums with
  | nil => exact (Option.some.inj h).symm
  | cons n numbers ih =>
      rw [List.map_cons, List.mapM_cons, Option.bind_eq_bind, Option.bind_eq_some_iff] at h
      obtain ⟨z, hz, h⟩ := h
      rw [Option.bind_eq_bind, Option.bind_eq_some_iff] at h
      obtain ⟨zs, hzs, h⟩ := h
      rw [← Option.some.inj h, stoi_decimal hz, ih hzs, List.map_cons]

theorem splitDots_decimals (numbers : List Nat) :
    splitDots (['.'].intercalate (numbers.map decimal)) = numbers.map decimal := by
  rw [splitDots_eq]
  refine Text.getlines_intercalate ?_ ?_
  · intro p hp
    obtain ⟨n, -, rfl⟩ := List.mem_map.mp hp
    exact dot_not_mem_decimal n
  · rw [List.getLast?_map]
    intro h
    obtain ⟨n, -, hn⟩ := Option.map_eq_some_iff.mp h
    exact (decimal_numeral n).ne_nil hn

theorem resolveBit_decimals {a : Char} {numbers : List Nat} (hne : numbers ≠ [])
    (h : resolveBit a (['.'].intercalate (numbers.map decimal)) = some addr) :
    addr = (VarName.bit a numbers).address := by
  rw [resolveBit, splitDots_decimals] at h
  cases hnums : (numbers.map decimal).mapM
      (fun token => (stoi (String.ofList token)).toOption) with
  | none =>
      rw [hnums] at h
      cases h
  | some nums =>
      rw [hnums] at h
      obtain rfl := mapM_decimal hnums
      cases numbers with
      | nil => exact absurd rfl hne
      | cons n numbers =>
          cases numbers with
          | nil =>
              rw [← Option.some.inj h, ofInt_natCast]
              rfl
          | cons k numbers =>
              obtain ⟨ms, hms⟩ : ∃ ms, n :: k :: numbers = ms := ⟨_, rfl⟩
              have hnumber : ∀ i, UInt16.ofInt
                  ((List.map (fun n : Nat => (n : Int)) ms).getD i 0) =
                    UInt16.ofNat (ms.getD i 0) := by
                intro i
                rw [← ofInt_natCast]
                exact congrArg UInt16.ofInt (List.getD_map ms 0 (fun n : Nat => (n : Int)))
              obtain ⟨nums, hmap⟩ : ∃ nums, List.map (fun n : Nat => (n : Int)) ms = nums :=
                ⟨_, rfl⟩
              have haddr : (⟨a, true, UInt16.ofInt (nums.getD (nums.length - 2) 0),
                  UInt16.ofInt (nums.getD (nums.length - 1) 0)⟩ : LsAddress) = addr := by
                rw [← hmap, ← hms]
                exact Option.some.inj h
              rw [← haddr, ← hmap, hnumber, hnumber, List.length_map, ← hms]
              rfl

theorem resolveWord_decimal {a : Char} {n : Nat}
    (h : resolveWord a 'W' (decimal n) = some addr) :
    addr = (VarName.word a n).address := by
  rw [resolveWord] at h
  split at h
  · cases h
  · next z hz =>
      rw [stoi_decimal hz, ofInt_natCast] at h
      exact (Option.some.inj h).symm

theorem resolveAddress_parts {name : List UInt8} {a type : Char} {rest : List Char}
    (hname : chars name = '%' :: a :: type :: rest) (hrest : rest ≠ [])
    (ha : a = 'I' ∨ a = 'Q' ∨ a = 'M') :
    resolveAddress name = if type = 'X' then resolveBit a rest
      else if type = 'W' ∨ type = 'B' then resolveWord a type rest else none := by
  have hlen : ¬ ('%' :: a :: type :: rest).length < 4 := by
    have hpos := List.length_pos_iff.mpr hrest
    simp only [List.length_cons]
    omega
  have hstart : (if ('%' :: a :: type :: rest).getD 0 ' ' = '%' then 1 else 0) = 1 := if_pos rfl
  have harea : ('%' :: a :: type :: rest).getD 1 ' ' = a := rfl
  rw [resolveAddress, hname]
  dsimp only
  rw [if_neg hlen, hstart, if_neg (by omega), harea, if_neg (not_not.mpr ha)]
  rfl

/-- A name the server takes leads where its numbers say. -/
theorem resolveAddress_bytes (hx : x.Proper) (h : resolveAddress x.bytes = some addr) :
    addr = x.address := by
  have harea := hx.area
  have hchars := hx.chars_bytes
  cases x with
  | bit a numbers =>
      have hne := (hx.bit a numbers rfl).1
      have hrest : ['.'].intercalate (numbers.map decimal) ≠ [] := by
        intro he
        have hsplit := splitDots_decimals numbers
        rw [he] at hsplit
        exact hne (List.map_eq_nil_iff.mp hsplit.symm)
      rw [resolveAddress_parts hchars hrest harea, if_pos rfl] at h
      exact resolveBit_decimals hne h
  | word a n =>
      rw [resolveAddress_parts hchars (decimal_numeral n).ne_nil harea, if_neg (by decide),
        if_pos (Or.inl rfl)] at h
      exact resolveWord_decimal h

end Resolve

/-! ## From numbers to cells -/

section Cells

variable {x y : VarName}

theorem VarName.isBit_address (a : Char) (numbers : List Nat) :
    (bit a numbers).address.isBit = true ∧ (bit a numbers).address.areaChar = a := by
  rw [address.eq_def]
  split
  · next h => cases h; exact ⟨rfl, rfl⟩
  · next h => cases h; exact ⟨rfl, rfl⟩
  · next h => cases h

theorem VarName.cellIndex_bit {a : Char} {numbers : List Nat} (hne : numbers ≠ [])
    (hlast : last numbers < 8) : (bit a numbers).address.cellIndex =
      if numbers.length = 1 then 8 * last numbers
      else (8 * lastButOne numbers + last numbers) % 65536 := by
  have hflat : (bit a numbers).address.cellIndex = (bit a numbers).address.flatIdx.toNat :=
    if_pos (isBit_address a numbers).1
  rw [hflat, LsAddress.flatIdx, UInt16.toNat_ofNat']
  cases numbers with
  | nil => exact absurd rfl hne
  | cons n numbers =>
      cases numbers with
      | nil =>
          have hn : n < 8 := hlast
          show ((UInt16.ofNat n).toNat * 8 + 0) % 65536 = 8 * n
          rw [UInt16.toNat_ofNat']
          omega
      | cons k numbers =>
          obtain ⟨i, hi⟩ : ∃ i, lastButOne (n :: k :: numbers) = i := ⟨_, rfl⟩
          obtain ⟨j, hj⟩ : ∃ j, last (n :: k :: numbers) = j := ⟨_, rfl⟩
          rw [if_neg (by simp), hi, hj]
          show ((UInt16.ofNat (lastButOne (n :: k :: numbers))).toNat * 8 +
            (UInt16.ofNat (last (n :: k :: numbers))).toNat) % 65536 = _
          rw [hi, hj, UInt16.toNat_ofNat', UInt16.toNat_ofNat']
          omega

theorem lastButOne_singleton {numbers : List Nat} (h : numbers.length = 1) :
    VarName.lastButOne numbers = VarName.last numbers := by
  rw [VarName.lastButOne, VarName.last, h]

theorem area_bit_inj {addr addr' : LsAddress} (hbit : addr.isBit = true)
    (hbit' : addr'.isBit = true) (h : addr.Valid) (h' : addr'.Valid) :
    addr.area = addr'.area ↔ addr.areaChar = addr'.areaChar := by
  constructor
  · intro harea
    rw [LsAddress.area, LsAddress.area, if_pos hbit, if_pos hbit'] at harea
    rcases h with h | h | h <;> rcases h' with h' | h' | h' <;> rw [h, h'] at harea ⊢ <;>
      cases harea
  · intro hchar
    rw [LsAddress.area, LsAddress.area, if_pos hbit, if_pos hbit', hchar]

theorem area_bit_ne {addr addr' : LsAddress} (hbit : addr.isBit = true)
    (hword : addr'.isBit = false) : addr.area ≠ addr'.area := by
  intro harea
  rw [LsAddress.area, LsAddress.area, if_pos hbit, hword, if_neg Bool.false_ne_true] at harea
  split at harea
  · cases harea
  split at harea
  · cases harea
  · cases harea

/-- Two names of the same shape lead to one cell just if they are aliased. -/
theorem sameCell_iff (hx : x.Proper) (hy : y.Proper) (hshape : x.SameShape y) :
    x.address.area = y.address.area ∧ x.address.cellIndex = y.address.cellIndex ↔
      x.Aliased y := by
  cases x with
  | word a n =>
      cases y with
      | word b k =>
          refine (and_iff_right rfl).trans ?_
          show (UInt16.ofNat n).toNat = (UInt16.ofNat k).toNat ↔ n % 65536 = k % 65536
          rw [UInt16.toNat_ofNat', UInt16.toNat_ofNat']
      | bit b ks =>
          refine iff_of_false (fun h => ?_) id
          exact area_bit_ne (VarName.isBit_address b ks).1 rfl h.1.symm
  | bit a ns =>
      cases y with
      | word b k =>
          refine iff_of_false (fun h => ?_) id
          exact area_bit_ne (VarName.isBit_address a ns).1 rfl h.1
      | bit b ks =>
          obtain ⟨hne, hlast⟩ := hx.bit a ns rfl
          obtain ⟨hne', hlast'⟩ := hy.bit b ks rfl
          obtain ⟨hbit, hchar⟩ := VarName.isBit_address a ns
          obtain ⟨hbit', hchar'⟩ := VarName.isBit_address b ks
          have hvalid : (VarName.bit a ns).address.Valid := by
            rw [LsAddress.Valid, hchar]
            exact hx.area
          have hvalid' : (VarName.bit b ks).address.Valid := by
            rw [LsAddress.Valid, hchar']
            exact hy.area
          have hlen : ns.length = ks.length := hshape
          rw [area_bit_inj hbit hbit' hvalid hvalid', hchar, hchar',
            VarName.cellIndex_bit hne hlast, VarName.cellIndex_bit hne' hlast', hlen]
          refine and_congr_right fun _ => ?_
          split
          · next hone =>
              rw [lastButOne_singleton hone, lastButOne_singleton (hlen.trans hone)]
              omega
          · omega

end Cells

/-! ## What a write is seen through -/

/-- An individual read of one variable. -/
def readOne (head : List UInt8) (y : Variable) (tail : List UInt8) : List UInt8 :=
  head ++ (nameBytes y.name ++ tail)

/-- An individual write through `x` changes what an individual read through `y`
returns: somewhere in memory, with some value, whatever else is sent. -/
def Reaches (x y : Variable) : Prop :=
  ∃ (beyond : Nat → UInt8) (m : PlcMemory) (w : Assignment)
    (head tail readHead readTail : List UInt8),
    w.toVariable = x ∧ BlockHead head 0x0058 1 ∧ BlockHead readHead 0x0054 1 ∧
    (processRequest beyond (processRequest beyond m (blockWrite head [w] tail)).1
        (readOne readHead y readTail)).2.drop 30 ≠
      (processRequest beyond m (readOne readHead y readTail)).2.drop 30

/-- A variable set to zero, for its name. -/
def Variable.cleared (y : Variable) : Assignment :=
  ⟨y, List.replicate y.addr.size.toNat 0, List.length_replicate⟩

/-- A variable set to one. -/
def Variable.raised (x : Variable) : Assignment where
  toVariable := x
  data := if x.addr.isBit then [1] else [1, 0]
  size := by
    rw [LsAddress.size]
    split <;> rfl

theorem Variable.value_raised (x : Variable) : x.raised.value = 1 := by
  have hone : le16 [1, 0] 0 = 1 := by decide
  rw [Assignment.value, raised]
  split
  · rfl
  · exact hone

section Reaches

variable {beyond : Nat → UInt8} {m : PlcMemory} {head tail : List UInt8}

theorem readOne_returns (y : Variable) (hhead : BlockHead head 0x0054 1) :
    (processRequest beyond m (readOne head y tail)).2.drop 30 =
      y.addr.replyBlock (m.get y.addr.area y.addr.cellIndex) := by
  have hone : readOne head y tail = blockRead head [y.cleared] tail := by
    simp [readOne, blockRead, Variable.cleared]
  have hexecute := @execute_blockRead beyond m [y.cleared] head tail hhead
    (List.cons_ne_nil _ _)
  have hlen : 12 ≤ (blockRead head [y.cleared] tail).length := by
    rw [blockRead, List.length_append, hhead.length]
    omega
  rw [hone, processRequest, hexecute]
  dsimp only
  rw [reply_none, drop_respond hlen, List.flatMap_singleton]
  rfl

theorem writeOne_leaves (w : Assignment) (hhead : BlockHead head 0x0058 1) :
    (processRequest beyond m (blockWrite head [w] tail)).1 =
      m.set w.addr.area w.addr.cellIndex w.value := by
  have hexecute := @execute_blockWrite beyond m [w] head tail hhead (List.cons_ne_nil _ _)
  rw [processRequest, hexecute]
  rfl

theorem replyBlock_ne (addr : LsAddress) : addr.replyBlock 1 ≠ addr.replyBlock 0 := by
  rw [LsAddress.replyBlock, LsAddress.replyBlock]
  intro h
  have h := List.append_cancel_left h
  split at h
  · exact absurd h (by decide)
  · exact absurd h (by decide)

end Reaches

/-- A write is seen through every name of its cell and through no other. -/
theorem reaches_iff (x y : Variable) :
    Reaches x y ↔ x.addr.area = y.addr.area ∧ x.addr.cellIndex = y.addr.cellIndex := by
  constructor
  · rintro ⟨beyond, m, w, head, tail, readHead, readTail, rfl, hhead, hreadHead, hne⟩
    rw [readOne_returns y hreadHead, readOne_returns y hreadHead, writeOne_leaves w hhead,
      PlcMemory.get_set] at hne
    by_contra hcell
    exact hne (by rw [if_neg fun h => hcell ⟨h.1, h.2.1⟩])
  · rintro ⟨harea, hindex⟩
    have hwrite : BlockHead (blockHead 0 0x58 1) 0x0058 1 := ⟨rfl, rfl, by decide, rfl⟩
    have hread : BlockHead (blockHead 0 0x54 1) 0x0054 1 := ⟨rfl, rfl, by decide, rfl⟩
    have hin : x.addr.cellIndex < PlcMemory.default.size x.addr.area := x.raised.lt_size _
    have hnorm : x.addr.area.norm 1 = 1 := by
      have hvalue := x.raised.norm_value
      rwa [Variable.value_raised] at hvalue
    refine ⟨fun _ => 0, PlcMemory.default, x.raised, blockHead 0 0x58 1, [],
      blockHead 0 0x54 1, [], rfl, hwrite, hread, ?_⟩
    rw [readOne_returns y hread, readOne_returns y hread, writeOne_leaves x.raised hwrite,
      PlcMemory.get_set, Variable.value_raised, PlcMemory.get_default]
    refine ne_of_eq_of_ne (congrArg y.addr.replyBlock ?_) (replyBlock_ne y.addr)
    exact (if_pos ⟨harea, hindex, hin⟩).trans hnorm

/-! ## Names and cells together -/

/-- A variable whose name is written the way a client writes one. -/
structure Named extends Variable where
  spelling : VarName
  proper : spelling.Proper
  spelled : name = spelling.bytes

theorem Named.addr_eq (x : Named) : x.addr = x.spelling.address := by
  refine resolveAddress_bytes x.proper ?_
  rw [← x.spelled]
  exact x.resolves

/-- A write through one name is not seen through another, just if the two are not
aliased. -/
theorem xgt_names_unambiguous_iff (x y : Named) (hshape : x.spelling.SameShape y.spelling) :
    (Reaches x.toVariable y.toVariable → x.name = y.name) ↔
      x.name = y.name ∨ ¬ x.spelling.Aliased y.spelling := by
  rw [reaches_iff, x.addr_eq, y.addr_eq, sameCell_iff x.proper y.proper hshape]
  constructor
  · intro h
    by_cases halias : x.spelling.Aliased y.spelling
    · exact Or.inl (h halias)
    · exact Or.inr halias
  · intro h halias
    exact h.resolve_right (not_not.mpr halias)

/-- `%IW5` and `%MW5`, the words the console lists an input register and a
holding register under. -/
def namedIW5 : Named where
  name := (VarName.word 'I' 5).bytes
  addr := ⟨'I', false, 5, 0⟩
  fits := by decide
  resolves := by decide
  inRange := by decide
  spelling := .word 'I' 5
  proper := ⟨by decide, by rintro a numbers ⟨⟩⟩
  spelled := rfl

@[inherit_doc namedIW5]
def namedMW5 : Named where
  name := (VarName.word 'M' 5).bytes
  addr := ⟨'M', false, 5, 0⟩
  fits := by decide
  resolves := by decide
  inRange := by decide
  spelling := .word 'M' 5
  proper := ⟨by decide, by rintro a numbers ⟨⟩⟩
  spelled := rfl

/-- `%QX0.1.0` and `%QX1.1.0`, on two bases. -/
def namedQX010 : Named where
  name := (VarName.bit 'Q' [0, 1, 0]).bytes
  addr := ⟨'Q', true, 1, 0⟩
  fits := by decide
  resolves := by decide
  inRange := by decide
  spelling := .bit 'Q' [0, 1, 0]
  proper := ⟨by decide, by rintro a numbers ⟨⟩; decide⟩
  spelled := rfl

@[inherit_doc namedQX010]
def namedQX110 : Named where
  name := (VarName.bit 'Q' [1, 1, 0]).bytes
  addr := ⟨'Q', true, 1, 0⟩
  fits := by decide
  resolves := by decide
  inRange := by decide
  spelling := .bit 'Q' [1, 1, 0]
  proper := ⟨by decide, by rintro a numbers ⟨⟩; decide⟩
  spelled := rfl

/-- A word and a bit do not meet. -/
theorem xgt_names_unambiguous_mixed :
    namedIW5.name ≠ namedQX010.name ∧
      ¬ Reaches namedIW5.toVariable namedQX010.toVariable := by
  have hne : namedIW5.name ≠ namedQX010.name := by decide
  have hunambiguous := (xgt_names_unambiguous_iff namedIW5 namedQX010 trivial).mpr (Or.inr id)
  exact ⟨hne, fun hreaches => hne (hunambiguous hreaches)⟩

/-- A write through one name of a pair is seen through the other. -/
theorem xgt_names_ambiguous :
    (Reaches namedIW5.toVariable namedMW5.toVariable ∧ namedIW5.name ≠ namedMW5.name) ∧
      namedQX010.spelling.SameShape namedQX110.spelling ∧
      Reaches namedQX010.toVariable namedQX110.toVariable ∧
      namedQX010.name ≠ namedQX110.name := by
  have hbase0 : namedQX010.addr = ⟨'Q', true, 1, 0⟩ := rfl
  have hbase1 : namedQX110.addr = ⟨'Q', true, 1, 0⟩ := rfl
  refine ⟨⟨(reaches_iff _ _).mpr ⟨rfl, rfl⟩, by decide⟩, rfl, (reaches_iff _ _).mpr ?_, by decide⟩
  rw [hbase0, hbase1]
  exact ⟨rfl, rfl⟩

end XgtServer

end VPlc
