/-
  SingleFile.LineMap.Json — LINE MAPS AS JSON
  ───────────────────────────────────────────
  The third version of the source map format.
-/
import SingleFile.Json.Value
import SingleFile.LineMap.Basic

namespace SingleFile.LineMap

open SingleFile.Json

/-- The version of the format. -/
def formatVersion : Nat := 3

/-- A map as a JSON object; the file is named only when it is known. -/
def toJson (map : LineMap) : Value :=
  let file := (map.file.map fun name => ("file", Value.string name)).toList
  .object (("version", .ofNat formatVersion) :: file ++
    [("sources", .array (map.sources.map fun s => .string s.name)),
     ("sourcesContent", .array (map.sources.map fun s => .ofText? s.content)),
     ("names", .array []),
     ("mappings", .string (String.ofList map.encodedMappings))])

end SingleFile.LineMap
