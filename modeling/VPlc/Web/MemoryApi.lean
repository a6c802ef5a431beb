import VPlc.Core.Mapping
import VPlc.Json.Value

/-!
# Reading and writing memory over HTTP

The two memory routes of the web server. A body is what `json::parse` makes of it,
or the text of what it throws. Taking a write apart and carrying it out are two
functions: what the body said is an address and an `int` then, `-1` standing for an
absent value. Only the status and the text of a reply are kept.
-/

namespace VPlc

/-- What `res` holds when a handler returns. -/
structure HttpResponse where
  status : Nat
  content : String
  deriving DecidableEq, Repr

/-- `e.what()` of what `parseAddress` throws. -/
def ParseError.what : ParseError → String
  | .runtimeError what => what
  | .invalidArgument => "stoi"
  | .outOfRange => "stoi"

namespace PlcMemory

/-- What a write through the web does to the memory once its address has been
parsed: the write, and one pass of the mapping engine. -/
def webWrite (m : PlcMemory) (ref : MemoryRef) (value : UInt16) : PlcMemory :=
  (m.writeValue ref value).syncMappings

/-- `POST /api/memory/write`, from the decoded request on. -/
def postMemoryWrite (m : PlcMemory) (address : String) (valInt : Int) :
    PlcMemory × HttpResponse :=
  if address.isEmpty ∨ valInt < 0 then
    (m, ⟨400, "Missing 'address' or 'value' fields."⟩)
  else
    match parseAddress address with
    | .error e => (m, ⟨400, "Error writing memory: " ++ e.what⟩)
    | .ok ref => (m.webWrite ref (UInt16.ofInt valInt), ⟨200, "Success"⟩)

/-- `POST /api/memory/write`. -/
def postMemoryWriteBody (m : PlcMemory) (body : Except String Json) :
    PlcMemory × HttpResponse :=
  match body with
  | .error what => (m, ⟨400, "Error writing memory: " ++ what⟩)
  | .ok j =>
      match j.value Json.getString "address" "" with
      | .error e => (m, ⟨400, "Error writing memory: " ++ e.what⟩)
      | .ok address =>
          match j.value Json.getInt "value" (-1) with
          | .error e => (m, ⟨400, "Error writing memory: " ++ e.what⟩)
          | .ok valInt => postMemoryWrite m address valInt

/-- `GET /api/memory/read`: the value, or the error reply. -/
def getMemoryRead (m : PlcMemory) (address : String) :
    Except HttpResponse UInt16 :=
  if address.isEmpty then .error ⟨400, "Missing parameter 'address'"⟩
  else
    match parseAddress address with
    | .error e => .error ⟨400, "Error reading memory: " ++ e.what⟩
    | .ok ref => .ok (m.readValue ref)

end PlcMemory

end VPlc
