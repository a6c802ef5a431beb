import VPlc.Json.Value
import VPlc.Web.MemoryApi

/-!
# Replacing the mapping rules over HTTP

`POST /api/mappings` writes the body to `mappings.json` and has the engine load
that file; `GET /api/mappings` answers with the file. The file is the document in
it, nothing while there is none. Writing it does not fail, and what is written
parses to what was dumped.
-/

namespace VPlc

/-- The mapping file and the engine. -/
structure MappingsApi where
  file : Option Json
  memory : PlcMemory

/-- What the loop of `loadMappings` reads from an item. -/
def mappingItem (item : Json) : PlcMemory.MappingItem :=
  match item.value Json.getString "src" "", item.value Json.getString "dst" "" with
  | .ok src, .ok dst => .entry src dst
  | _, _ => .illTyped

namespace MappingsApi

/-- `GET /api/mappings`. -/
def getMappings (s : MappingsApi) : Json := s.file.getD (.array [])

/-- `POST /api/mappings`. The body is what `json::parse` makes of it, or the text
of what it throws. -/
def postMappings (s : MappingsApi) (body : Except String Json) :
    MappingsApi × HttpResponse :=
  match body with
  | .error what => (s, ⟨400, "JSON Parsing Error: " ++ what⟩)
  | .ok j =>
      if !j.isArray then (s, ⟨400, "Mappings must be a JSON array."⟩)
      else
        match s.memory.loadMappings (some (j.elements.map mappingItem)) with
        | (memory, true) => ({ file := some j, memory }, ⟨200, "Success"⟩)
        | (memory, false) =>
            ({ file := some j, memory },
              ⟨400, "Failed to parse some mappings, but saved file."⟩)

end MappingsApi

end VPlc
