import VPlc.Core.Address
import VPlc.Json.Value
import VPlc.Threads.WriteBehind

/-!
# The tag manager

`PlcTagManager` keeps a list of named cells and a copy of it in a configuration
file. The file is what it parses to here, nothing while there is none or it is
not JSON, and writing it does not fail.

`addTag` and `removeTag` give their lock back before they save. What each does
while it holds the lock is a function of its own, `insertTag` and `eraseTag`, so
that the calls can also be taken apart into their locked sections
(`PlcTagManager.serve`); a call nobody interrupts is the function
(`serve_alone`).
-/

namespace VPlc

structure PlcTag where
  name : String
  area : String
  address : UInt16
  type : String
  description : String
  deriving DecidableEq, Repr

namespace PlcTag

/-- The fields of a tag, read from a member list. -/
def ofJson (item : Json) : Except Json.TypeError PlcTag := do
  let name ← item.value Json.getString "name" ""
  let area ← item.value Json.getString "area" ""
  let address ← item.value Json.getUInt16 "address" 0
  let type ← item.value Json.getString "type" ""
  let description ← item.value Json.getString "description" ""
  return { name, area, address, type, description }

def toJson (tag : PlcTag) : Json :=
  .object [("name", .string tag.name), ("area", .string tag.area),
    ("address", .integer tag.address.toNat), ("type", .string tag.type),
    ("description", .string tag.description)]

/-- No required field is empty. -/
def filled (tag : PlcTag) : Bool :=
  !(tag.name.isEmpty || tag.area.isEmpty || tag.type.isEmpty)

theorem ofJson_toJson (tag : PlcTag) : ofJson tag.toJson = .ok tag := by
  have haddr : Json.getUInt16 (.integer tag.address.toNat) = .ok tag.address :=
    Json.getUInt16_toNat tag.address
  unfold ofJson toJson
  rw [Json.value_of_lookup rfl, Json.value_of_lookup rfl, Json.value_of_lookup rfl,
    Json.value_of_lookup rfl, Json.value_of_lookup rfl, haddr]
  rfl

end PlcTag

structure PlcTagManager where
  memory : PlcMemory
  config : Option Json
  tags : List PlcTag

namespace PlcTagManager

/-- The loop of `loadConfig`, and whether it got to the end. An item that throws
leaves the tags read before it. -/
def loadItems (tags : List PlcTag) : List Json → List PlcTag × Bool
  | [] => (tags, true)
  | item :: items =>
      match PlcTag.ofJson item with
      | .error _ => (tags, false)
      | .ok tag => loadItems (if tag.filled then tags ++ [tag] else tags) items

/-- What `loadConfig` leaves of the tags, and what it returns. -/
def readConfig (config : Option Json) (tags : List PlcTag) : List PlcTag × Bool :=
  match config with
  | none => (tags, false)
  | some j => loadItems [] j.elements

def loadConfig (mgr : PlcTagManager) : PlcTagManager × Bool :=
  let r := readConfig mgr.config mgr.tags
  ({ mgr with tags := r.1 }, r.2)

/-- The constructor. -/
def new (memory : PlcMemory) (config : Option Json) : PlcTagManager :=
  (loadConfig { memory, config, tags := [] }).1

/-- The document `saveConfig` writes. -/
def tagsJson (tags : List PlcTag) : Json := .array (tags.map PlcTag.toJson)

def saveConfig (mgr : PlcTagManager) : PlcTagManager :=
  { mgr with config := some (tagsJson mgr.tags) }

/-- `addTag` while it holds the lock: the new list, if the tag is taken. -/
def insertTag (memory : PlcMemory) (tags : List PlcTag) (tag : PlcTag) :
    Option (List PlcTag) :=
  if tags.any (·.name = tag.name) then none
  else if tag.area = "Coils" ∧ memory.getCoilsSize ≤ tag.address.toNat then none
  else if tag.area = "DiscreteInputs" ∧
      memory.getDiscreteInputsSize ≤ tag.address.toNat then none
  else if tag.area = "InputRegisters" ∧
      memory.getInputRegistersSize ≤ tag.address.toNat then none
  else if tag.area = "HoldingRegisters" ∧
      memory.getHoldingRegistersSize ≤ tag.address.toNat then none
  else some (tags ++ [tag])

/-- `removeTag` while it holds the lock. -/
def eraseTag (tags : List PlcTag) (name : String) : Option (List PlcTag) :=
  if tags.any (·.name = name) then some (tags.eraseP (·.name = name)) else none

/-- A tag that is taken goes to the end, and its name was free. -/
theorem insertTag_spec {memory : PlcMemory} {tags tags' : List PlcTag}
    {tag : PlcTag} (h : insertTag memory tags tag = some tags') :
    tags' = tags ++ [tag] ∧ ∀ t ∈ tags, t.name ≠ tag.name := by
  unfold insertTag at h
  split at h
  · cases h
  · next hfree =>
      have hname : ∀ t ∈ tags, t.name ≠ tag.name := by
        simpa using hfree
      repeat
        split at h
        · cases h
      exact ⟨(Option.some.inj h).symm, hname⟩

theorem eraseTag_spec {tags tags' : List PlcTag} {name : String}
    (h : eraseTag tags name = some tags') : tags' = tags.eraseP (·.name = name) := by
  unfold eraseTag at h
  split at h
  · exact (Option.some.inj h).symm
  · cases h

def addTag (mgr : PlcTagManager) (tag : PlcTag) : PlcTagManager × Bool :=
  match insertTag mgr.memory mgr.tags tag with
  | none => (mgr, false)
  | some tags => (saveConfig { mgr with tags }, true)

def removeTag (mgr : PlcTagManager) (name : String) : PlcTagManager × Bool :=
  match eraseTag mgr.tags name with
  | none => (mgr, false)
  | some tags => (saveConfig { mgr with tags }, true)

def hasTag (mgr : PlcTagManager) (name : String) : Bool := mgr.tags.any (·.name = name)

def readTagValue (mgr : PlcTagManager) (tag : PlcTag) : String :=
  if tag.area = "Coils" then if mgr.memory.readCoil tag.address then "1" else "0"
  else if tag.area = "DiscreteInputs" then
    if mgr.memory.readDiscreteInput tag.address then "1" else "0"
  else if tag.area = "InputRegisters" then
    toString (mgr.memory.readInputRegister tag.address).toNat
  else if tag.area = "HoldingRegisters" then
    toString (mgr.memory.readHoldingRegister tag.address).toNat
  else "0"

/-- The `try` block of `writeTagValue`. -/
def writeValue (memory : PlcMemory) (tag : PlcTag) (valueStr : String) :
    Except ParseError PlcMemory :=
  if tag.area = "Coils" then
    .ok (memory.writeCoil tag.address
      (valueStr = "1" ∨ valueStr = "true" ∨ valueStr = "ON"))
  else if tag.area = "DiscreteInputs" then
    .ok (memory.writeDiscreteInput tag.address
      (valueStr = "1" ∨ valueStr = "true" ∨ valueStr = "ON"))
  else if tag.area = "InputRegisters" then
    (stoiU16 valueStr).map (memory.writeInputRegister tag.address)
  else if tag.area = "HoldingRegisters" then
    (stoiU16 valueStr).map (memory.writeHoldingRegister tag.address)
  else .ok memory

def writeTagValue (mgr : PlcTagManager) (name valueStr : String) : PlcTagManager × Bool :=
  match mgr.tags.find? (·.name = name) with
  | none => (mgr, false)
  | some tag =>
      match writeValue mgr.memory tag valueStr with
      | .error _ => (mgr, false)
      | .ok memory => ({ mgr with memory }, true)

/-! ## Calls at the same time -/

/-- A call of one of the two. -/
inductive Request
  | addTag (tag : PlcTag)
  | removeTag (name : String)
  deriving DecidableEq, Repr

/-- What a call does in its first locked section. -/
def Request.apply (memory : PlcMemory) : Request → List PlcTag → Option (List PlcTag)
  | .addTag tag, tags => insertTag memory tags tag
  | .removeTag name, tags => eraseTag tags name

/-- What it does in its second one, that of `saveConfig`. -/
def saved (tags : List PlcTag) : Option Json := some (tagsJson tags)

abbrev Serving := WriteBehind.Shared Request (List PlcTag) (Option Json)

/-- The manager with these calls under way and none of them let in yet. -/
def serve (mgr : PlcTagManager) (requests : List Request) : Serving :=
  WriteBehind.start mgr.tags mgr.config requests

/-- The calls enter their locked sections in this order. -/
def interleave (mgr : PlcTagManager) (requests : List Request)
    (schedule : List Nat) : Serving :=
  WriteBehind.run (Request.apply mgr.memory) saved (serve mgr requests) schedule

/-- The calls that changed the list, in the order they did. -/
def changes (mgr : PlcTagManager) (requests : List Request)
    (schedule : List Nat) : List (Nat × Request) :=
  WriteBehind.commits (Request.apply mgr.memory) saved (serve mgr requests) schedule

/-- The call as the program makes it. -/
def Request.call (mgr : PlcTagManager) : Request → PlcTagManager × Bool
  | .addTag tag => mgr.addTag tag
  | .removeTag name => mgr.removeTag name

/-- A call in its two sections, with nobody in between, is the call. -/
theorem serve_alone (mgr : PlcTagManager) (r : Request) :
    interleave mgr [r] [0, 0] =
      ⟨(r.call mgr).1.tags, (r.call mgr).1.config,
        [⟨r, .returned (r.call mgr).2⟩]⟩ := by
  have hcall : r.call mgr =
      match r.apply mgr.memory mgr.tags with
      | none => (mgr, false)
      | some tags => (saveConfig { mgr with tags }, true) := by
    cases r with
    | addTag tag => rfl
    | removeTag name => rfl
  rw [hcall, interleave, serve, WriteBehind.run_cons, WriteBehind.turn]
  cases ha : r.apply mgr.memory mgr.tags with
  | none => simp [WriteBehind.start, WriteBehind.Call.start, ha, WriteBehind.run,
      WriteBehind.turn]
  | some tags => simp [WriteBehind.start, WriteBehind.Call.start, ha, WriteBehind.run,
      WriteBehind.turn, saveConfig, saved]

end PlcTagManager

end VPlc
