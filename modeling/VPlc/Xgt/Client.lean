import VPlc.Net.Session
import VPlc.Xgt.Request

/-!
# The XGT connection

The length field of a frame cannot be trusted: one client library leaves two
bytes out of it. So after reading as many bytes as the field says the server
walks over what it has, shape by shape, and fetches what is missing. A walk that
cannot get its bytes stops, loses the ones it had just read, and the request is
processed as far as it came.
-/

namespace VPlc

open Bytes (le16)

namespace XgtServer

/-- The body so far, and what `recv` will find. -/
structure Drain where
  body : List UInt8
  incoming : List (List UInt8)

namespace Drain

/-- `if (body.size() < n) read_extra_blockingly(n - body.size())`: whether the
bytes are there now. -/
def ensure (n : Nat) (d : Drain) : Bool × Drain :=
  if d.body.length < n then
    match Net.recvExact (n - d.body.length) d.incoming with
    | (some extra, incoming) => (true, ⟨d.body ++ extra, incoming⟩)
    | (none, incoming) => (false, ⟨d.body, incoming⟩)
  else (true, d)

/-- Go on if the client is still there. -/
def andThen (r : Bool × Drain) (f : Drain → Bool × Drain) : Bool × Drain :=
  if r.1 then f r.2 else r

/-- What the walks are made of: two bytes of length at `offset`, as many bytes
as they say, and on from there. -/
def field (len : UInt16 → UInt16) (offset : Nat) (k : Nat → Drain → Bool × Drain)
    (d : Drain) : Bool × Drain :=
  andThen (d.ensure (offset + 2)) fun d =>
    let n := (len (le16 d.body offset)).toNat
    andThen (d.ensure (offset + 2 + n)) (k (offset + 2 + n))

/-- The walk over the blocks of an individual read: a name each. -/
def readBlocks : Nat → Nat → Drain → Bool × Drain
  | 0, _, d => (true, d)
  | b + 1, offset, d => field id offset (readBlocks b) d

/-- The walk over the blocks of an individual write: a name and data each. -/
def writeBlocks : Nat → Nat → Drain → Bool × Drain
  | 0, _, d => (true, d)
  | b + 1, offset, d => field id offset (field writeDataLen · (writeBlocks b)) d

/-- A continuous read: the name and the byte count. -/
def readRun (d : Drain) : Bool × Drain :=
  let varLen := (le16 d.body 10).toNat
  d.ensure (12 + varLen + 2)

/-- A continuous write: the name, the data length and the data. -/
def writeRun (d : Drain) : Bool × Drain :=
  let varLen := (le16 d.body 10).toNat
  andThen (d.ensure (12 + varLen + 2)) fun d =>
    let dataLen := (writeDataLen (le16 d.body (12 + varLen))).toNat
    d.ensure (12 + varLen + 2 + dataLen)

/-- The whole drain layer. -/
def drain (d : Drain) : Bool × Drain :=
  andThen (d.ensure 12) fun d =>
    let command := le16 d.body 2
    let dataType := le16 d.body 4
    let blockCount := (le16 d.body 8).toNat
    if dataType = 0x0014 then
      if command = 0x0054 then d.readRun
      else if command = 0x0058 then d.writeRun
      else (true, d)
    else
      if command = 0x0054 then readBlocks blockCount 10 d
      else if command = 0x0058 then writeBlocks blockCount 10 d
      else (true, d)

end Drain

/-- `LGIS-GLO`. -/
def lgisGlo : List UInt8 := [0x4C, 0x47, 0x49, 0x53, 0x2D, 0x47, 0x4C, 0x4F]

/-- What the 18 header bytes have to look like. -/
def HeaderOk (header : List UInt8) : Prop :=
  (header.take 8 = lsisXgt ∨ header.take 8 = lgisGlo) ∧
    le16 header 16 ≠ 0 ∧ le16 header 16 ≤ 2048

instance (header : List UInt8) : Decidable (HeaderOk header) :=
  inferInstanceAs (Decidable (_ ∧ _))

/-- One turn of the loop of `handleClient`. -/
def turn (beyond : Nat → UInt8) (sends : Nat → Bool) (s : Net.Session PlcMemory) :
    Net.Session PlcMemory × Bool :=
  let (header?, incoming) := Net.recvExact 18 s.incoming
  match header? with
  | none => ({ s with incoming }, false)
  | some header =>
      if ¬ HeaderOk header then ({ s with incoming }, false)
      else
        let (body?, incoming) := Net.recvExact (le16 header 16).toNat incoming
        match body? with
        | none => ({ s with incoming }, false)
        | some body =>
            let (_, d) := Drain.drain ⟨body, incoming⟩
            (Net.Session.serve (processRequest beyond) id
              { s with incoming := d.incoming } (header ++ d.body),
              sends s.outgoing.length)

def handleClient (beyond : Nat → UInt8) (sends : Nat → Bool) (turns : Nat)
    (m : PlcMemory) (incoming : List (List UInt8)) : Net.Session PlcMemory :=
  Net.Session.run (turn beyond sends) turns (Net.Session.start m incoming)

end XgtServer

end VPlc
