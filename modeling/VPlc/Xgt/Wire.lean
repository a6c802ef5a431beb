import VPlc.Xgt.Request

/-!
# The XGT wire format

What a body is made of, once its ten fixed bytes are set aside: names, each
behind its length, and for a write the data of each, behind its own. `Shaped`
ties the two parts together, since the fixed bytes say which of the four shapes
follows and how many blocks it has.

`Fits` is what the server takes a length field to mean. A data length of `0x20`
fits two bytes of data and no others.
-/

namespace VPlc

open Bytes (leBytes le16)

namespace XgtServer

/-- A name behind its length. -/
def nameBytes (name : List UInt8) : List UInt8 :=
  leBytes (UInt16.ofNat name.length) ++ name

structure WriteBlock where
  name : List UInt8
  len : UInt16
  data : List UInt8

namespace WriteBlock

def bytes (b : WriteBlock) : List UInt8 := nameBytes b.name ++ (leBytes b.len ++ b.data)

structure Fits (b : WriteBlock) : Prop where
  name : b.name.length < 65536
  data : b.data.length = (writeDataLen b.len).toNat

end WriteBlock

/-- The four shapes of a body. -/
inductive Content
  | read (names : List (List UInt8))
  | write (blocks : List WriteBlock)
  | readRun (name : List UInt8) (byteCount : UInt16)
  | writeRun (block : WriteBlock)

namespace Content

def bytes : Content → List UInt8
  | read names => names.flatMap nameBytes
  | write blocks => blocks.flatMap WriteBlock.bytes
  | readRun name byteCount => nameBytes name ++ leBytes byteCount
  | writeRun block => block.bytes

def names : Content → List (List UInt8)
  | read names => names
  | write blocks => blocks.map WriteBlock.name
  | readRun name _ => [name]
  | writeRun block => [block.name]

def command : Content → UInt16
  | read _ | readRun _ _ => 0x0054
  | write _ | writeRun _ => 0x0058

def isRun : Content → Bool
  | read _ | write _ => false
  | readRun _ _ | writeRun _ => true

def Fits : Content → Prop
  | read names => ∀ name ∈ names, name.length < 65536
  | write blocks => ∀ b ∈ blocks, b.Fits
  | readRun name _ => name.length < 65536
  | writeRun block => block.Fits

end Content

/-- The fixed bytes of a body announce what follows them. -/
structure Shaped (fixed : List UInt8) (c : Content) : Prop where
  length : fixed.length = 10
  command : le16 fixed 2 = c.command
  dataType : le16 fixed 4 = 0x0014 ↔ c.isRun = true
  blockCount : c.isRun = false → (le16 fixed 8).toNat = c.names.length
  fits : c.Fits

theorem toNat_length_field {name : List UInt8} (h : name.length < 65536) :
    (UInt16.ofNat name.length).toNat = name.length := UInt16.toNat_ofNat_of_lt' h

theorem length_nameBytes (name : List UInt8) :
    (nameBytes name).length = 2 + name.length := by
  rw [nameBytes, List.length_append, Bytes.length_leBytes]

theorem WriteBlock.length_bytes (b : WriteBlock) :
    b.bytes.length = 2 + b.name.length + (2 + b.data.length) := by
  simp only [bytes, List.length_append, length_nameBytes, Bytes.length_leBytes]

theorem writeDataLen_of_ne {len : UInt16} (h : len ≠ 0x0020) : writeDataLen len = len :=
  if_neg h

end XgtServer

end VPlc
