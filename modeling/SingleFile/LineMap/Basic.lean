/-
  SingleFile.LineMap.Basic — SOURCE MAPS BY THE LINE
  ──────────────────────────────────────────────────
  A line map tells which line of which source each line of a generated text
  comes from.  Mappings are added in any order; the finished map holds them
  in the order of the generated lines.
-/
import SingleFile.LineMap.Vlq

namespace SingleFile

/-! ## §1. Maps -/

/-- A generated line and the line of a source it comes from, all counted from 0. -/
structure LineMapping where
  generated : Nat
  original : Nat
  source : Nat
deriving DecidableEq, Repr, Inhabited

/-- A source: its name, and its text if that is part of the map. -/
structure MapSource where
  name : String
  content : Option String
deriving DecidableEq, Repr, Inhabited

/-- A map that is being built. -/
structure LineMapDraft where
  file : Option String
  sources : List MapSource
  /-- The mappings in the order they were added. -/
  added : List LineMapping
deriving DecidableEq, Repr, Inhabited

/-- A finished map. -/
structure LineMap where
  file : Option String
  sources : List MapSource
  /-- The mappings in the order of the generated lines. -/
  mappings : List LineMapping
deriving DecidableEq, Repr, Inhabited

namespace LineMapDraft

/-! ## §2. Building -/

/-- A map without anything in it. -/
def empty : LineMapDraft := ⟨none, [], []⟩

/-- Names the generated file. -/
def setFile (d : LineMapDraft) (name : String) : LineMapDraft := { d with file := some name }

/-- Adds a source. -/
def addSource (d : LineMapDraft) (name : String) : LineMapDraft :=
  { d with sources := d.sources ++ [⟨name, none⟩] }

/-- Gives a source its text; nothing happens where there is no such source. -/
def setContent (d : LineMapDraft) (source : Nat) (content : String) : LineMapDraft :=
  { d with sources := d.sources.modify source fun s => { s with content := some content } }

/-- Adds a mapping. -/
def addLine (d : LineMapDraft) (generated original source : Nat) : LineMapDraft :=
  { d with added := d.added ++ [⟨generated, original, source⟩] }

/-- Whether a mapping's generated line comes no later than another one's. -/
def comesBefore (a b : LineMapping) : Bool := a.generated ≤ b.generated

/-- The finished map; mappings of one generated line keep their order. -/
def build (d : LineMapDraft) : LineMap :=
  ⟨d.file, d.sources, d.added.mergeSort comesBefore⟩

end LineMapDraft

namespace LineMap

/-! ## §3. Looking up -/

/-- The original line of a generated line. -/
def originalLine? (map : LineMap) (generated : Nat) : Option Nat :=
  (map.mappings.find? fun m => m.generated == generated).map LineMapping.original

/-- The first generated line that comes from a line of a source. -/
def generatedLine? (map : LineMap) (source original : Nat) : Option Nat :=
  (map.mappings.find? fun m => m.source == source && m.original == original).map
    LineMapping.generated

/-! ## §4. Text -/

/-- The fields of a mapping, relative to those of the mapping before it; columns are 0. -/
def segment (previous m : LineMapping) : List Char :=
  Vlq.encode 0
    ++ Vlq.encode (Int64.ofInt ((m.source : Int) - previous.source))
    ++ Vlq.encode (Int64.ofInt ((m.original : Int) - previous.original))
    ++ Vlq.encode 0

/-- The text of the mappings behind one of a line: a semicolon for each line passed, or a comma
if the next mapping is of the same line. -/
def encodeBehind (previous : LineMapping) : List LineMapping → List Char
  | [] => []
  | m :: rest =>
    let passed := m.generated - previous.generated
    (if passed = 0 then [','] else List.replicate passed ';') ++ segment previous m
      ++ encodeBehind m rest

/-- The text of the mappings. -/
def encodedMappings (map : LineMap) : List Char :=
  match map.mappings with
  | [] => []
  | first :: rest =>
    List.replicate first.generated ';' ++ segment ⟨0, 0, 0⟩ first ++ encodeBehind first rest

end LineMap

end SingleFile
