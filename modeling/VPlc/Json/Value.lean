/-!
# JSON values

A parsed document, and the three ways a program that was written for one shape
of document looks into another: it iterates over whatever it was given
(`elements`), it asks an object for a member and names what an absent one reads
as (`value`), and it converts what it found to the type it wants (`getString`,
`getUInt16`, `getInt`). The last two throw, and what they throw says which of them
it was and what it met.

A number keeps the kind it was written with. An integer is converted modulo two to
the width of the type, a fractional number loses its fraction first. Past the type a
fractional number has no conversion in C++: what it reads as is then up to the compiler
and the machine, and the residue taken here is one choice.
-/

inductive Json
  | null
  | boolean (b : Bool)
  -- a parser makes a `real` of what is past 64 bits
  | integer (i : Int)
  | real (x : Rat)
  | string (s : String)
  | array (items : List Json)
  | object (members : List (String × Json))

namespace Json

/-- What the accessors throw, with the name of the type they met. -/
inductive TypeError
  | cannotUseValue (typeName : String)
  | mustBeString (typeName : String)
  | mustBeNumber (typeName : String)
  deriving DecidableEq, Repr

def TypeError.what : TypeError → String
  | .cannotUseValue t => "[json.exception.type_error.306] cannot use value() with " ++ t
  | .mustBeString t => "[json.exception.type_error.302] type must be string, but is " ++ t
  | .mustBeNumber t => "[json.exception.type_error.302] type must be number, but is " ++ t

def typeName : Json → String
  | null => "null"
  | boolean _ => "boolean"
  | integer _ => "number"
  | real _ => "number"
  | string _ => "string"
  | array _ => "array"
  | object _ => "object"

def isArray : Json → Bool
  | array _ => true
  | _ => false

/-- What a range-based loop over a value visits: a scalar is its own only
element. -/
def elements : Json → List Json
  | null => []
  | array items => items
  | object members => members.map Prod.snd
  | j => [j]

def getString : Json → Except TypeError String
  | string s => .ok s
  | j => .error (.mustBeString j.typeName)

def getUInt16 : Json → Except TypeError UInt16
  | integer i => .ok (UInt16.ofInt i)
  -- undefined from 65536 on, and from -1 down
  | real x => .ok (UInt16.ofInt (x.num.tdiv x.den))
  | boolean b => .ok b.toUInt16
  | j => .error (.mustBeNumber j.typeName)

/-- What an `int` makes of a number: it has 32 bits. -/
def toInt (i : Int) : Int := i.bmod 4294967296

def getInt : Json → Except TypeError Int
  | integer i => .ok (toInt i)
  -- undefined past 32 bits, where x86 gives the least `int`
  | real x => .ok (toInt (x.num.tdiv x.den))
  | boolean b => .ok b.toInt
  | j => .error (.mustBeNumber j.typeName)

/-- `j.value(key, default)`. -/
def value {α : Type} (get : Json → Except TypeError α) (key : String)
    (absent : α) : Json → Except TypeError α
  | object members =>
      match members.lookup key with
      | some j => get j
      | none => .ok absent
  | j => .error (.cannotUseValue j.typeName)

variable {α : Type} {get : Json → Except TypeError α} {key : String} {absent : α}

theorem value_of_lookup {members : List (String × Json)} {j : Json}
    (h : members.lookup key = some j) :
    value get key absent (object members) = get j := by
  show (match members.lookup key with
    | some j => get j
    | none => Except.ok absent) = get j
  rw [h]

@[simp] theorem getString_string (s : String) : getString (string s) = .ok s := rfl

@[simp] theorem getUInt16_toNat (v : UInt16) :
    getUInt16 (integer v.toNat) = .ok v := by
  have hlt : v.toNat < 2 ^ 16 := v.toNat_lt
  have hmod : ((v.toNat : Int) % 2 ^ 16).toNat = v.toNat := by omega
  show Except.ok (UInt16.ofNat ((v.toNat : Int) % 2 ^ 16).toNat) = Except.ok v
  rw [hmod, UInt16.ofNat_toNat]

end Json
