import Mathlib.Data.List.Basic

/-!
# Decimal numerals

`Numeral text n`: the text is one digit or more, and they spell `n`. Leading
zeros do no harm. Every number has a numeral, the one it is printed as, and a
numeral spells one number only. A signed numeral may have a minus before it.
-/

namespace Text

/-- `text` is digits and nothing else, and they spell `n`. -/
structure Numeral (text : List Char) (n : Nat) : Prop where
  ne_nil : text ≠ []
  digits : ∀ c ∈ text, c.isDigit = true
  value : Nat.ofDigitChars 10 text 0 = n

theorem takeWhile_eq_self {α : Type*} {p : α → Bool} {xs : List α} (h : ∀ x ∈ xs, p x = true) :
    xs.takeWhile p = xs := by
  have htake := @List.takeWhile_append_of_pos _ p xs [] h
  rwa [List.append_nil, List.takeWhile_nil, List.append_nil] at htake

namespace Numeral

variable {text : List Char} {n k : Nat}

theorem toDigits (n : Nat) : Numeral (Nat.toDigits 10 n) n :=
  ⟨Nat.toDigits_ne_nil, fun _ hc => Nat.isDigit_of_mem_toDigits (by decide) (by decide) hc,
    Nat.ofDigitChars_ten_toDigits⟩

theorem toString (n : Nat) : Numeral (toString n).toList n := by
  rw [Nat.toString_eq_repr, Nat.toList_repr]
  exact toDigits n

theorem functional (h : Numeral text n) (h' : Numeral text k) : n = k :=
  h.value.symm.trans h'.value

theorem not_mem (h : Numeral text n) {c : Char} (hc : c.isDigit = false) : c ∉ text :=
  fun hmem => Bool.noConfusion ((h.digits c hmem).symm.trans hc)

end Numeral

/-- A numeral, with a minus in front of it or without. -/
def SignedNumeral (text : List Char) (v : Int) : Prop :=
  (∃ n, Numeral text n ∧ v = n) ∨
    ∃ digits n, text = '-' :: digits ∧ Numeral digits n ∧ v = -(n : Int)

theorem Numeral.signed {text : List Char} {n : Nat} (h : Numeral text n) :
    SignedNumeral text n := Or.inl ⟨n, h, rfl⟩

theorem SignedNumeral.functional {text : List Char} {v w : Int} (h : SignedNumeral text v)
    (h' : SignedNumeral text w) : v = w := by
  rcases h with ⟨n, hn, rfl⟩ | ⟨ds, n, rfl, hn, rfl⟩ <;>
    rcases h' with ⟨k, hk, rfl⟩ | ⟨es, k, htext, hk, rfl⟩
  · rw [hn.functional hk]
  · exact absurd (by rw [htext]; exact List.mem_cons_self) (hn.not_mem (c := '-') (by decide))
  · exact absurd List.mem_cons_self (hk.not_mem (c := '-') (by decide))
  · obtain rfl := List.tail_eq_of_cons_eq htext
    rw [hn.functional hk]

theorem SignedNumeral.digit_or_minus {text : List Char} {v : Int} (h : SignedNumeral text v)
    {c : Char} (hc : c ∈ text) : c.isDigit = true ∨ c = '-' := by
  rcases h with ⟨n, hn, -⟩ | ⟨ds, n, rfl, hn, -⟩
  · exact Or.inl (hn.digits c hc)
  · rcases List.mem_cons.mp hc with rfl | hc
    · exact Or.inr rfl
    · exact Or.inl (hn.digits c hc)

theorem toString_neg_ne {v : Int} (hv : v < 0) (n : Nat) : toString v ≠ toString n := by
  obtain ⟨k, rfl⟩ := Int.eq_negSucc_of_lt_zero hv
  intro h
  have htext : (toString (Int.negSucc k)).toList = '-' :: (toString (k + 1)).toList := by
    rw [show toString (Int.negSucc k) = "-" ++ toString (k + 1) from rfl, String.toList_append]
    rfl
  have hmem : '-' ∈ (toString n).toList := by
    rw [← h, htext]
    exact List.mem_cons_self
  exact (Numeral.toString n).not_mem (by decide) hmem

theorem toString_inj {n k : Nat} (h : toString n = toString k) : n = k :=
  (Numeral.toString n).functional (by rw [h]; exact Numeral.toString k)

theorem eq_of_toString_eq {v : Int} {n : Nat} (h : toString n = toString v) : v = n := by
  rcases Int.lt_or_le v 0 with hv | hv
  · exact absurd h.symm (toString_neg_ne hv n)
  · obtain ⟨k, rfl⟩ := Int.eq_ofNat_of_zero_le hv
    rw [toString_inj h]

theorem toString_natCast (n : Nat) : toString (n : Int) = toString n := rfl

end Text
