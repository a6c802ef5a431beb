import VPlc.Bytes.Word
import VPlc.Core.Area

/-!
# The S7 server's two copies

The S7 library serves its clients out of byte buffers it was handed at start,
and the server keeps the buffers and `PlcMemory` in step. Inputs and outputs go
one way, a bit at a time. A data block goes both ways: `syncBeforeCycle` looks
for words a client has changed, by comparing the buffer with a shadow of what
was last put there, and `syncAfterCycle` copies the store over buffer and
shadow alike.

The loops for the two data blocks are the same loop, and so are those for inputs
and outputs; each is written once, with the accessor it calls as a parameter.
-/

namespace VPlc

/-- A data block's buffer and its shadow. -/
structure DataBlock where
  buffer : Vector UInt8 2048
  shadow : Vector UInt8 2048

/-- `S7Server`, without the library handle and the address it listens on. -/
structure S7Server where
  isRunning : Bool
  peBuffer : Vector UInt8 256
  paBuffer : Vector UInt8 256
  db1 : DataBlock
  db2 : DataBlock

namespace S7Server

/-- The server as its constructor leaves it. -/
def new : S7Server where
  isRunning := false
  peBuffer := Vector.replicate 256 0
  paBuffer := Vector.replicate 256 0
  db1 := ⟨Vector.replicate 2048 0, Vector.replicate 2048 0⟩
  db2 := ⟨Vector.replicate 2048 0, Vector.replicate 2048 0⟩

/-- Store two bytes next to each other. -/
def putPair (xs : Vector UInt8 2048) (byteIdx : Nat) (h l : UInt8) :
    Vector UInt8 2048 :=
  (xs.setIfInBounds byteIdx h).setIfInBounds (byteIdx + 1) l

/-- The body of a data block's loop in `syncBeforeCycle`. -/
def detectWord (write : PlcMemory → UInt16 → UInt16 → PlcMemory)
    (p : PlcMemory × DataBlock) (i : Nat) : PlcMemory × DataBlock :=
  let byteIdx := i * 2
  let currH := p.2.buffer.getD byteIdx 0
  let currL := p.2.buffer.getD (byteIdx + 1) 0
  let shadH := p.2.shadow.getD byteIdx 0
  let shadL := p.2.shadow.getD (byteIdx + 1) 0
  if currH ≠ shadH ∨ currL ≠ shadL then
    (write p.1 (UInt16.ofNat i) (Bytes.word currH currL),
      { p.2 with shadow := putPair p.2.shadow byteIdx currH currL })
  else p

def detectWrites (write : PlcMemory → UInt16 → UInt16 → PlcMemory)
    (m : PlcMemory) (db : DataBlock) : PlcMemory × DataBlock :=
  (List.range 1024).foldl (detectWord write) (m, db)

def syncBeforeCycle (m : PlcMemory) (s : S7Server) : PlcMemory × S7Server :=
  if !s.isRunning then (m, s)
  else
    let p₁ := detectWrites PlcMemory.writeS7DB1 m s.db1
    let p₂ := detectWrites PlcMemory.writeS7DB2 p₁.1 s.db2
    (p₂.1, { s with db1 := p₁.2, db2 := p₂.2 })

/-- The body of the loops that publish bits. -/
def publishBit (read : UInt16 → Bool) (buf : Vector UInt8 256) (i : Nat) :
    Vector UInt8 256 :=
  let byteIdx := i / 8
  let bitIdx := i % 8
  buf.setIfInBounds byteIdx
    (Bytes.putBit (buf.getD byteIdx 0) bitIdx (read (UInt16.ofNat i)))

def publishBits (read : UInt16 → Bool) (buf : Vector UInt8 256) :
    Vector UInt8 256 :=
  (List.range 2048).foldl (publishBit read) buf

/-- The body of a data block's loop in `syncAfterCycle`. -/
def publishWord (read : UInt16 → UInt16) (db : DataBlock) (i : Nat) :
    DataBlock :=
  let val := read (UInt16.ofNat i)
  let byteIdx := i * 2
  let h := Bytes.high val
  let l := Bytes.low val
  { buffer := putPair db.buffer byteIdx h l
    shadow := putPair db.shadow byteIdx h l }

def publishWords (read : UInt16 → UInt16) (db : DataBlock) : DataBlock :=
  (List.range 1024).foldl (publishWord read) db

def syncAfterCycle (m : PlcMemory) (s : S7Server) : S7Server :=
  if !s.isRunning then s
  else
    { s with
      peBuffer := publishBits m.readS7PE s.peBuffer
      paBuffer := publishBits m.readS7PA s.paBuffer
      db1 := publishWords m.readS7DB1 s.db1
      db2 := publishWords m.readS7DB2 s.db2 }

/-- One turn of `syncLoop`. -/
def syncCycle (p : PlcMemory × S7Server) : PlcMemory × S7Server :=
  let p₁ := syncBeforeCycle p.1 p.2
  (p₁.1, syncAfterCycle p₁.1 p₁.2)

end S7Server

/-- The two data blocks the server serves. -/
inductive Block
  | db1 | db2
  deriving DecidableEq, Repr

namespace Block

def area : Block → Area
  | db1 => .s7Db1
  | db2 => .s7Db2

def read (m : PlcMemory) : Block → UInt16 → UInt16
  | db1 => m.readS7DB1
  | db2 => m.readS7DB2

def write : Block → PlcMemory → UInt16 → UInt16 → PlcMemory
  | db1 => PlcMemory.writeS7DB1
  | db2 => PlcMemory.writeS7DB2

def data (s : S7Server) : Block → DataBlock
  | db1 => s.db1
  | db2 => s.db2

/-- Replace the bytes the library serves, and nothing else. -/
def withBuffer (s : S7Server) (buffer : Vector UInt8 2048) : Block → S7Server
  | db1 => { s with db1 := { s.db1 with buffer } }
  | db2 => { s with db2 := { s.db2 with buffer } }

end Block

/-! ## The sync thread and everyone around it

The library applies a client's write to the buffer when it likes, under no lock
the sync thread takes; other threads write the store. The two calls of the sync
loop are atomic steps here, and so is each of those writes. -/

/-- A client's bytes, stored from `start` on. -/
def writeBytes (xs : Vector UInt8 2048) (start : Nat) :
    List UInt8 → Vector UInt8 2048
  | [] => xs
  | b :: bs => writeBytes (xs.setIfInBounds start b) (start + 1) bs

/-- Which call the sync thread makes next. -/
inductive SyncCall
  | before | after
  deriving DecidableEq, Repr

structure S7Plant where
  mem : PlcMemory
  srv : S7Server
  next : SyncCall

/-- The sync thread's next call, a client's write to a data block, or another
thread's write to the store. -/
inductive S7Event
  | sync
  | client (B : Block) (start : Nat) (bytes : List UInt8)
  | store (B : Block) (i v : UInt16)
  deriving DecidableEq, Repr

namespace S7Plant

def exec (s : S7Plant) : S7Event → S7Plant
  | .sync =>
      match s.next with
      | .before =>
          let p := S7Server.syncBeforeCycle s.mem s.srv
          ⟨p.1, p.2, .after⟩
      | .after => ⟨s.mem, S7Server.syncAfterCycle s.mem s.srv, .before⟩
  | .client B start bytes =>
      { s with
        srv := B.withBuffer s.srv (writeBytes (B.data s.srv).buffer start bytes) }
  | .store B i v => { s with mem := B.write s.mem i v }

def run (s : S7Plant) (es : List S7Event) : S7Plant := es.foldl exec s

end S7Plant

end VPlc
