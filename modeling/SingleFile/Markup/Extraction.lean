/-
  SingleFile.Markup.Extraction — FINDING THE BLOCKS OF A COMPONENT
  ────────────────────────────────────────────────────────────────
  The file is scanned for start tags outside of blocks.  A template ends at
  its own end tag, elements inside it being counted; every other block is
  raw text up to the next end tag of its name.

  The scan yields findings in the order of the file; they are sorted into a
  descriptor afterwards, where only the first template and the first script
  count.
-/
import SingleFile.Markup.Block

namespace SingleFile.Markup

open SingleFile.Text

/-! ## §1. Findings -/

/-- A complete block as it stands in the file. -/
structure RawBlock where
  tag : String
  attributes : List Attribute
  start : Nat
  content : Cursor
  contentStop : Nat
  stop : Nat
deriving DecidableEq, Repr, Inhabited

/-- Something that a scan comes upon. -/
inductive Finding where
  | block (raw : RawBlock)
  | issue (found : PlacedIssue)
deriving DecidableEq, Repr, Inhabited

/-- The finding that a tag was not closed. -/
def brokenTag (tag : Tag) : List Finding :=
  if tag.isBroken then
    [.issue ⟨.unclosedTag tag.name, Span.ofRange tag.start tag.behind.offset⟩]
  else []

/-! ## §2. The ends of blocks -/

/-- An end tag: where it begins, and the place behind it. -/
structure EndTag where
  start : Nat
  behind : Cursor
deriving DecidableEq, Repr, Inhabited

/-- The text behind a name in front of it, the case of ASCII letters aside. -/
def afterName? : List Char → Cursor → Option Cursor
  | [], c => some c
  | n :: ns, c =>
    match c.rest with
    | [] => none
    | ch :: _ => if n.toLower == ch.toLower then afterName? ns c.next else none

/-- Whether a tag's name may end in front of a text. -/
def endsName (c : Cursor) : Bool :=
  match c.rest with
  | [] => true
  | ch :: _ => ch == '>' || ch == '/' || isAsciiBlank ch

/-- The end tag of a raw text with a name.  Each step takes two characters at least, so the
number of characters bounds them. -/
def rawTextEnd? (name : List Char) : Nat → Cursor → Option EndTag
  | 0, _ => none
  | bound + 1, c =>
    match c.find? ['<', '/'] with
    | none => none
    | some found =>
      let nameStart := found.skip 2
      match (afterName? name nameStart).filter endsName with
      | some behind => some ⟨found.offset, behind.behindNext ['>']⟩
      | none => rawTextEnd? name bound nameStart

/-- The end tag of a raw text that begins at a place. -/
def findRawTextEnd (name : String) (c : Cursor) : Option EndTag :=
  rawTextEnd? name.toList (c.rest.length + 1) c

/-- The elements whose content is raw text in a template. -/
def rawTextElements : List String := ["script", "style", "textarea"]

/-- Whether an element's content is raw text. -/
def isRawTextElement (name : String) : Bool := rawTextElements.any (sameName name)

/-- The open elements around an end tag once it has closed one, the innermost first; nothing if
it closes none. -/
def closeElement (name : String) : List String → Option (List String)
  | [] => none
  | top :: rest => if sameName top name then some rest else closeElement name rest

/-- The end tag of a template, with what is found inside it.  `opened` holds the open elements,
the innermost first.  Each step takes a character at least. -/
def templateEnd? : Nat → Cursor → List String → Option EndTag × List Finding
  | 0, _, _ => (none, [])
  | bound + 1, c, opened =>
    match c.find? ['<'] with
    | none => (none, [])
    | some found =>
      match markupAt found with
      | .skipped behind => templateEnd? bound behind opened
      | .openComment span behind =>
        let (result, findings) := templateEnd? bound behind opened
        (result, .issue ⟨.unterminatedComment, span⟩ :: findings)
      | .text => templateEnd? bound found.next opened
      | .tag tag =>
        let (result, findings) :=
          if tag.isEnd then
            -- An end tag belongs to the innermost open element of its name; with none open, it can
            -- only be the template's own.
            match closeElement tag.name opened with
            | some opened => templateEnd? bound tag.behind opened
            | none =>
              if sameName tag.name "template" then (some ⟨found.offset, tag.behind⟩, [])
              else templateEnd? bound tag.behind opened
          else if tag.isSelfClosing then templateEnd? bound tag.behind opened
          else if isRawTextElement tag.name then
            -- Nothing in a raw text is a tag, so the scan goes on behind its end.
            match findRawTextEnd tag.name tag.behind with
            | some ending => templateEnd? bound ending.behind opened
            | none => (none, [])
          else templateEnd? bound tag.behind (tag.name :: opened)
        (result, brokenTag tag ++ findings)

/-! ## §3. The scan -/

/-- The end of a block behind its start tag, and what is found inside it. -/
def blockEnd (tag : Tag) : Option EndTag × List Finding :=
  if tag.isSelfClosing then (some ⟨tag.behind.offset, tag.behind⟩, [])
  else if sameName tag.name "template" then
    templateEnd? (tag.behind.rest.length + 1) tag.behind []
  else (findRawTextEnd tag.name tag.behind, [])

/-- What a start tag outside of blocks leads to, and the place behind it. -/
def readBlock (tag : Tag) : List Finding × Cursor :=
  match blockEnd tag with
  | (some ending, findings) =>
    let raw : RawBlock :=
      ⟨tag.name, tag.attributes, tag.start, tag.behind, ending.start, ending.behind.offset⟩
    (findings ++ [.block raw], ending.behind)
  | (none, findings) =>
    let issue : PlacedIssue :=
      ⟨.unclosedBlock tag.name, Span.ofRange tag.start tag.behind.offset⟩
    -- A block without its end tag takes the rest of the file.
    (findings ++ [.issue issue], tag.behind.toEnd)

/-- The findings from a place on.  Each step takes a character at least. -/
def findingsFrom : Nat → Cursor → List Finding
  | 0, _ => []
  | bound + 1, c =>
    match c.find? ['<'] with
    | none => []
    | some found =>
      match markupAt found with
      | .skipped behind => findingsFrom bound behind
      | .openComment span behind =>
        .issue ⟨.unterminatedComment, span⟩ :: findingsFrom bound behind
      | .text => findingsFrom bound found.next
      | .tag tag =>
        if tag.isEnd then brokenTag tag ++ findingsFrom bound tag.behind
        else
          let (findings, behind) := readBlock tag
          brokenTag tag ++ findings ++ findingsFrom bound behind

/-- The findings of a component. -/
def findings (source : List Char) : List Finding :=
  findingsFrom (source.length + 1) (Cursor.ofText source)

/-! ## §4. The descriptor -/

/-- What a component consists of, and what is wrong with it. -/
structure Extraction where
  descriptor : Descriptor
  issues : List PlacedIssue
deriving DecidableEq, Repr, Inhabited

/-- A raw block with its padded content. -/
def RawBlock.padded (raw : RawBlock) (source : List Char) (padding : Padding) : Block :=
  let content := upTo raw.content.rest (raw.contentStop - raw.content.offset)
  let block : Block :=
    ⟨raw.tag, Span.ofRange raw.start raw.stop, Span.ofRange raw.content.offset raw.contentStop,
      content, raw.attributes⟩
  let before := upTo source raw.content.offset
  { block with content := padding.text raw.tag block.lang? before ++ content }

/-- Adds a block to those found before; a second template or script is an issue. -/
def Extraction.addBlock (e : Extraction) (b : Block) : Extraction :=
  let d := e.descriptor
  let duplicate : Extraction := { e with issues := e.issues ++ [⟨.duplicateBlock b.tag, b.span⟩] }
  match lowerCase b.tag with
  | "template" =>
    if d.template.isSome then duplicate
    else { e with descriptor := { d with template := some b } }
  | "script" =>
    if d.script.isSome then duplicate else { e with descriptor := { d with script := some b } }
  | "style" => { e with descriptor := { d with styles := d.styles ++ [StyleBlock.ofBlock b] } }
  | _ => { e with descriptor := { d with custom := d.custom ++ [b] } }

/-- Adds a finding to those before. -/
def Extraction.add (source : List Char) (padding : Padding) (e : Extraction) : Finding → Extraction
  | .block raw => e.addBlock (raw.padded source padding)
  | .issue found => { e with issues := e.issues ++ [found] }

/-- The blocks of a component. -/
def extract (padding : Padding) (source : List Char) : Extraction :=
  (findings source).foldl (Extraction.add source padding) ⟨Descriptor.empty, []⟩

end SingleFile.Markup
