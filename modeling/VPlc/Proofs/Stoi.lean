import VPlc.Core.Address
import VPlc.Text.Getline
import VPlc.Text.Numeral

/-!
# Numbers read from text

`stoi` on a numeral, with and without a sign in front of it, and the narrowing
to sixteen bits that follows it everywhere in this program. Where several numbers
stand in one text, dots are between them.
-/

namespace VPlc

open Text (Numeral SignedNumeral getlines)

theorem splitDots_eq (cs : List Char) : splitDots cs = getlines '.' cs := by
  induction cs with
  | nil => rfl
  | cons c cs ih =>
      rw [splitDots, getlines, ih]
      cases getlines '.' cs <;> rfl

theorem isSpace_of_isDigit {c : Char} (h : c.isDigit = true) : isSpace c = false := by
  simp only [Char.isDigit, Bool.and_eq_true, decide_eq_true_eq, UInt32.le_iff_toNat_le] at h
  have hge : 48 ≤ c.toNat := h.1
  simp only [isSpace, Bool.or_eq_false_iff, beq_eq_false_iff_ne, Bool.and_eq_false_iff,
    decide_eq_false_iff_not]
  omega

theorem takeSign_of_isDigit {c : Char} (h : c.isDigit = true) (cs : List Char) :
    takeSign (c :: cs) = (false, c :: cs) := by
  have hminus : c ≠ '-' := fun he => by rw [he] at h; cases h
  have hplus : c ≠ '+' := fun he => by rw [he] at h; cases h
  rw [takeSign, if_neg hminus, if_neg hplus]

theorem stoi_of_digits {s : String} (h : ∀ c ∈ s.toList, c.isDigit = true)
    (hne : s.toList ≠ []) :
    stoi s = if 2147483647 < digitsVal s.toList then .error .outOfRange
      else .ok (digitsVal s.toList : Int) := by
  obtain ⟨c, cs, hs⟩ := List.exists_cons_of_ne_nil hne
  have hc : c.isDigit = true := h c (by rw [hs]; exact List.mem_cons_self)
  have hdrop : s.toList.dropWhile isSpace = s.toList := by
    rw [hs, List.dropWhile_cons_of_neg (by rw [isSpace_of_isDigit hc]; exact Bool.false_ne_true)]
  have hsign : takeSign s.toList = (false, s.toList) := by
    rw [hs, takeSign_of_isDigit hc]
  have htake : s.toList.takeWhile Char.isDigit = s.toList := Text.takeWhile_eq_self h
  have hempty : s.toList.isEmpty = false := by rw [hs]; rfl
  simp only [stoi, hdrop, hsign, htake, hempty, Bool.false_eq_true, if_false]
  by_cases hbig : 2147483647 < digitsVal s.toList
  · rw [if_pos (Or.inr (by omega)), if_pos hbig]
  · rw [if_neg (by omega), if_neg hbig]

theorem digitsVal_eq (ds : List Char) : digitsVal ds = Nat.ofDigitChars 10 ds 0 := rfl

theorem stoi_numeral {s : String} {n : Nat} (h : Numeral s.toList n) (hn : n ≤ 2147483647) :
    stoi s = .ok (n : Int) := by
  rw [stoi_of_digits h.digits h.ne_nil, digitsVal_eq, h.value, if_neg (by omega)]

theorem stoi_minus {s : String} {ds : List Char} {n : Nat} (hs : s.toList = '-' :: ds)
    (h : Numeral ds n) (hn : n ≤ 2147483648) : stoi s = .ok (-(n : Int)) := by
  have hdrop : s.toList.dropWhile isSpace = s.toList := by
    rw [hs, List.dropWhile_cons_of_neg (by decide)]
  have hsign : takeSign s.toList = (true, ds) := by
    rw [hs, takeSign, if_pos rfl]
  have htake : ds.takeWhile Char.isDigit = ds := Text.takeWhile_eq_self h.digits
  have hempty : ds.isEmpty = false := by
    rw [List.isEmpty_eq_false_iff]
    exact h.ne_nil
  simp only [stoi, hdrop, hsign, htake, hempty, Bool.false_eq_true, if_false, if_true,
    digitsVal_eq, h.value]
  rw [if_neg (by omega)]

/-- `stoi` hears a signed numeral as the number it is, as long as an `int` holds it. -/
theorem stoi_signed {s : String} {v : Int} (h : SignedNumeral s.toList v)
    (hlo : -2147483648 ≤ v) (hhi : v ≤ 2147483647) : stoi s = .ok v := by
  rcases h with ⟨n, hn, rfl⟩ | ⟨ds, n, hs, hn, rfl⟩
  · exact stoi_numeral hn (by omega)
  · exact stoi_minus hs hn (by omega)

theorem toNat_ofInt (v : Int) : (UInt16.ofInt v).toNat = (v % 65536).toNat := by
  have hnonneg := Int.emod_nonneg v (show (65536 : Int) ≠ 0 by decide)
  have hlt := Int.emod_lt_of_pos v (show (0 : Int) < 65536 by decide)
  rw [UInt16.ofInt, UInt16.toNat_ofNat']
  show (v % 65536).toNat % 65536 = _
  omega

theorem ofInt_natCast (n : Nat) : UInt16.ofInt (n : Int) = UInt16.ofNat n := by
  rw [← UInt16.toNat_inj, toNat_ofInt, UInt16.toNat_ofNat']
  show _ = n % 65536
  omega

theorem stoiU16_numeral {s : String} {n : Nat} (h : Numeral s.toList n)
    (hn : n ≤ 2147483647) : stoiU16 s = .ok (UInt16.ofNat n) := by
  rw [stoiU16, stoi_numeral h hn, ← ofInt_natCast]
  rfl

/-- Digits that `stoi` takes are a numeral. -/
theorem numeral_of_stoiU16 {s : String} {i : UInt16} (h : stoiU16 s = .ok i)
    (hdigits : ∀ c ∈ s.toList, c.isDigit = true) :
    Numeral s.toList (digitsVal s.toList) ∧ i = UInt16.ofNat (digitsVal s.toList) := by
  have hne : s.toList ≠ [] := by
    intro he
    have hs : s = "" := String.toList_inj.mp he
    rw [hs] at h
    cases h
  have hnum : Numeral s.toList (digitsVal s.toList) := ⟨hne, hdigits, rfl⟩
  refine ⟨hnum, ?_⟩
  rw [stoiU16, stoi_of_digits hdigits hne] at h
  split at h
  · cases h
  · rw [← ofInt_natCast]
    exact (Except.ok.inj h).symm

end VPlc
