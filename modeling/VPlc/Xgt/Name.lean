import VPlc.Text.Numeral
import VPlc.Xgt.Request

/-!
# XGT variable names

The names a client has for its variables, before they are bytes: `%QX0.3` for a
bit, with one number or more, and `%MW10` for a word. `address` is what the
server takes a name for; what two names have to have in common to be taken for
the same cell is `Aliased`.
-/

namespace VPlc

namespace XgtServer

inductive VarName
  | bit (area : Char) (numbers : List Nat)
  | word (area : Char) (number : Nat)
  deriving DecidableEq

namespace VarName

/-- A number as it is printed. -/
def decimal (n : Nat) : List Char := (toString n).toList

def text : VarName → List Char
  | bit area numbers => '%' :: area :: 'X' :: ['.'].intercalate (numbers.map decimal)
  | word area number => '%' :: area :: 'W' :: decimal number

def bytes (x : VarName) : List UInt8 := x.text.map fun c => UInt8.ofNat c.toNat

def area : VarName → Char
  | bit area _ => area
  | word area _ => area

def last (numbers : List Nat) : Nat := numbers.getD (numbers.length - 1) 0

def lastButOne (numbers : List Nat) : Nat := numbers.getD (numbers.length - 2) 0

/-- A bit has a number, and the last one counts to eight. -/
structure Proper (x : VarName) : Prop where
  area : x.area = 'I' ∨ x.area = 'Q' ∨ x.area = 'M'
  bit : ∀ a numbers, x = bit a numbers → numbers ≠ [] ∧ last numbers < 8

/-- Two bits have as many numbers. -/
def SameShape : VarName → VarName → Prop
  | bit _ numbers, bit _ numbers' => numbers.length = numbers'.length
  | _, _ => True

/-- What the server takes a name for, if it takes it at all. -/
def address : VarName → LsAddress
  | bit area [n] => ⟨area, true, UInt16.ofNat n, 0⟩
  | bit area numbers =>
      ⟨area, true, UInt16.ofNat (lastButOne numbers), UInt16.ofNat (last numbers)⟩
  | word area number => ⟨area, false, UInt16.ofNat number, 0⟩

/-- Words with one number modulo 65536, whatever their area; bits of one area
that agree in the last number and, modulo 8192, in the one before it. -/
def Aliased : VarName → VarName → Prop
  | bit area numbers, bit area' numbers' => area = area' ∧ last numbers = last numbers' ∧
      lastButOne numbers % 8192 = lastButOne numbers' % 8192
  | word _ number, word _ number' => number % 65536 = number' % 65536
  | _, _ => False

end VarName

end XgtServer

end VPlc
