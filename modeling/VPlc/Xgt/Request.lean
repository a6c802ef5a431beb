import VPlc.Bytes.Wire
import VPlc.Core.Address

/-!
# XGT requests

A request names variables by text and reads or writes them, either block by
block (individual) or as one run of words (continuous). `execute` is what the
server does with a request: the memory it leaves, the data it returns, and the
fault it stopped at, if any. `processRequest` wraps the reply around it. Which
checks fail is kept apart, though several of them end in the same status.

A write block may say that it carries no data and is stored all the same, so at
the end of a request the server reads on behind it. What lies there is no part
of the request: `beyond` stands for it.

One client library sends the length `0x20` where it means 2, and the server puts
up with it (`writeDataLen`).
-/

namespace VPlc

open Bytes (leBytes le16 word)

namespace XgtServer

/-! ## Variable names -/

/-- What `resolveAddress` returns through its references. -/
structure LsAddress where
  areaChar : Char
  isBit : Bool
  index : UInt16
  subIndex : UInt16
  deriving DecidableEq, Repr

/-- The characters of a `std::string` made from bytes. -/
def chars (bytes : List UInt8) : List Char := bytes.map fun b => Char.ofNat b.toNat

/-- A bit's number: one part, or the last two of several. -/
def resolveBit (areaChar : Char) (numberPart : List Char) : Option LsAddress :=
  match (splitDots numberPart).mapM fun token => (stoi (String.ofList token)).toOption with
  | none => none
  | some [] => none
  | some [n] => some ⟨areaChar, true, UInt16.ofInt n, 0⟩
  | some nums =>
      some ⟨areaChar, true, UInt16.ofInt (nums.getD (nums.length - 2) 0),
        UInt16.ofInt (nums.getD (nums.length - 1) 0)⟩

/-- A word's number; `B` counts bytes. -/
def resolveWord (areaChar type : Char) (numberPart : List Char) : Option LsAddress :=
  match (stoi (String.ofList numberPart)).toOption with
  | none => none
  | some n =>
      let index := UInt16.ofInt n
      some ⟨areaChar, false, if type = 'B' then index / 2 else index, 0⟩

/-- `XgtServer::resolveAddress`; `none` where the source returns false. -/
def resolveAddress (varName : List UInt8) : Option LsAddress :=
  let addrStr := chars varName
  if addrStr.length < 4 then none
  else
    let start := if addrStr.getD 0 ' ' = '%' then 1 else 0
    if addrStr.length - start < 3 then none
    else
      let area := addrStr.getD start ' '
      let type := addrStr.getD (start + 1) ' '
      let numberPart := addrStr.drop (start + 2)
      if ¬ (area = 'I' ∨ area = 'Q' ∨ area = 'M') then none
      else if type = 'X' then resolveBit area numberPart
      else if type = 'W' ∨ type = 'B' then resolveWord area type numberPart
      else none

/-- `index * 8 + sub_index`, as an `uint16_t`. -/
def LsAddress.flatIdx (addr : LsAddress) : UInt16 :=
  UInt16.ofNat (addr.index.toNat * 8 + addr.subIndex.toNat)

/-- `std::string(1, area_char)`. -/
def LsAddress.areaStr (addr : LsAddress) : String := String.singleton addr.areaChar

/-! ## Executing a request -/

/-- Where a request can stop: it is shorter than any request (`request`), its
one name does not fit in it (`name`), something else does not (`length`), a name
means nothing (`address`), or the command is neither read nor write
(`command`). -/
inductive Fault
  | request | name | length | address | command
  deriving DecidableEq, Repr

/-- The error status of the reply. -/
def errorStatus : Option Fault → UInt16
  | none => 0x0000
  | some .request => 0x00FF
  | some .name => 0x1102
  | some .length => 0x1102
  | some .address => 0x1102
  | some .command => 0x00FF

/-- The data length of a write block, with the exception made for it. -/
def writeDataLen (len : UInt16) : UInt16 := if len = 0x0020 then 2 else len

section Execute

variable (beyond : Nat → UInt8) (request : List UInt8)

def byteAt (i : Nat) : UInt8 := request.getD i (beyond i)

def wordAt (i : Nat) : UInt16 := word (byteAt beyond request (i + 1)) (byteAt beyond request i)

/-- What a block of a read reply says: the size and the value. -/
def blockData (m : PlcMemory) (addr : LsAddress) : List UInt8 :=
  if addr.isBit then
    leBytes 1 ++ [if m.readLSBit addr.areaStr addr.flatIdx then 0x01 else 0x00]
  else leBytes 2 ++ leBytes (m.readLSWord addr.index)

/-- The loop of the individual read, from a block and its offset on. -/
def readBlocks (m : PlcMemory) :
    Nat → Nat → List UInt8 → List UInt8 × Option Fault
  | 0, _, respData => (respData, none)
  | b + 1, offset, respData =>
      if request.length < offset + 2 then (respData, some .length)
      else
        let varLen := (le16 request offset).toNat
        let offset := offset + 2
        if request.length < offset + varLen then (respData, some .length)
        else
          match resolveAddress ((request.drop offset).take varLen) with
          | none => (respData, some .address)
          | some addr =>
              readBlocks m b (offset + varLen) (respData ++ blockData m addr)

/-- The write of one block. -/
def storeBlock (m : PlcMemory) (addr : LsAddress) (offset : Nat) : PlcMemory :=
  if addr.isBit then
    m.writeLSBit addr.areaStr addr.flatIdx (byteAt beyond request offset != 0)
  else m.writeLSWord addr.index (wordAt beyond request offset)

/-- The loop of the individual write. -/
def writeBlocks : Nat → Nat → PlcMemory → PlcMemory × Option Fault
  | 0, _, m => (m, none)
  | b + 1, offset, m =>
      if request.length < offset + 2 then (m, some .length)
      else
        let varLen := (le16 request offset).toNat
        let offset := offset + 2
        if request.length < offset + varLen then (m, some .length)
        else
          match resolveAddress ((request.drop offset).take varLen) with
          | none => (m, some .address)
          | some addr =>
              let offset := offset + varLen
              if request.length < offset + 2 then (m, some .length)
              else
                let dataLen := (writeDataLen (le16 request offset)).toNat
                let offset := offset + 2
                if request.length < offset + dataLen then (m, some .length)
                else
                  writeBlocks b (offset + dataLen)
                    (storeBlock beyond request m addr offset)

/-- The continuous read. -/
def readRun (m : PlcMemory) (varLen : Nat) (addr? : Option LsAddress) :
    List UInt8 × Option Fault :=
  if request.length < 30 + varLen + 2 then ([], some .length)
  else
    match addr? with
    | none => ([], some .address)
    | some addr =>
        let byteCount := le16 request (30 + varLen)
        let numWords := byteCount.toNat / 2
        (leBytes byteCount ++ (List.range numWords).flatMap fun i =>
          leBytes (m.readLSWord (UInt16.ofNat (addr.index.toNat + i))), none)

/-- The continuous write. -/
def writeRun (m : PlcMemory) (varLen : Nat) (addr? : Option LsAddress) :
    PlcMemory × Option Fault :=
  if request.length < 30 + varLen + 2 then (m, some .length)
  else
    let dataLen := (writeDataLen (le16 request (30 + varLen))).toNat
    if request.length < 30 + varLen + 2 + dataLen then (m, some .length)
    else
      match addr? with
      | none => (m, some .address)
      | some addr =>
          let numWords := dataLen / 2
          let dataOffset := 30 + varLen + 2
          ((List.range numWords).foldl
            (fun m i => m.writeLSWord (UInt16.ofNat (addr.index.toNat + i))
              (le16 request (dataOffset + i * 2))) m, none)

/-- What a request does: the memory, the data for the reply, and the fault. -/
def execute (m : PlcMemory) : PlcMemory × List UInt8 × Option Fault :=
  if request.length < 30 then (m, [], some .request)
  else
    let command := le16 request 20
    let dataType := le16 request 22
    if dataType = 0x0014 then
      let varLen := (le16 request 28).toNat
      if request.length < 30 + varLen then (m, [], some .name)
      else
        let addr? := resolveAddress ((request.drop 30).take varLen)
        if command = 0x0054 then (m, readRun request m varLen addr?)
        else if command = 0x0058 then
          let r := writeRun request m varLen addr?
          (r.1, [], r.2)
        else (m, [], some .command)
    else
      let blockCount := (le16 request 26).toNat
      if command = 0x0054 then (m, readBlocks request m blockCount 28 [])
      else if command = 0x0058 then
        let r := writeBlocks beyond request blockCount 28 m
        (r.1, [], r.2)
      else (m, [], some .command)

end Execute

/-! ## Replies -/

def respCmd (command : UInt16) : UInt16 := if command = 0x0054 then 0x0055 else 0x0059

/-- `LSIS-XGT`. -/
def lsisXgt : List UInt8 := [0x4C, 0x53, 0x49, 0x53, 0x2D, 0x58, 0x47, 0x54]

/-- `err_resp`: nothing in it comes from the request but the command. -/
def errorReply (cmd status : UInt16) : List UInt8 :=
  lsisXgt ++ [0, 0, 0, 0, 0, 0x11, 0, 0] ++ leBytes 12 ++ [0, 0] ++ leBytes cmd ++
    [0, 0, 0, 0] ++ leBytes status ++ [0, 0]

/-- `response`. -/
def respond (request respData : List UInt8) (status : UInt16) : List UInt8 :=
  let command := le16 request 20
  let dataType := le16 request 22
  let blockCount := if dataType = 0x0014 then 1 else le16 request 26
  request.take 12 ++
    [request.getD 12 0, 0x11, request.getD 14 0, request.getD 15 0] ++
    leBytes (UInt16.ofNat (12 + respData.length)) ++
    [request.getD 18 0, request.getD 19 0] ++
    leBytes (respCmd command) ++ leBytes dataType ++ [0x00, 0x00] ++
    leBytes status ++ leBytes blockCount ++ respData

def reply (request respData : List UInt8) (fault : Option Fault) : List UInt8 :=
  match fault with
  | some .request => errorReply 0x00FF (errorStatus fault)
  | some .name => errorReply (respCmd (le16 request 20)) (errorStatus fault)
  | fault => respond request respData (errorStatus fault)

def processRequest (beyond : Nat → UInt8) (m : PlcMemory) (request : List UInt8) :
    PlcMemory × List UInt8 :=
  let r := execute beyond request m
  (r.1, reply request r.2.1 r.2.2)

example : resolveAddress [0x25, 0x4D, 0x57, 0x31, 0x30] = some ⟨'M', false, 10, 0⟩ := rfl

end XgtServer

end VPlc
