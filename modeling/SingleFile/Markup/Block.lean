/-
  SingleFile.Markup.Block — BLOCKS OF A COMPONENT
  ───────────────────────────────────────────────
  A component file is made of blocks: a template, a script, styles, and
  custom ones.  A block's content may be padded, so that its lines have the
  numbers they have in the file.
-/
import SingleFile.Markup.Tag

namespace SingleFile.Markup

open SingleFile.Text

/-! ## §1. Blocks -/

/-- A block. -/
structure Block where
  /-- The name of its tag, as written. -/
  tag : String
  /-- From its start tag to the end of its end tag. -/
  span : Span
  /-- What is between the tags. -/
  contentSpan : Span
  /-- What is between the tags, behind its padding. -/
  content : List Char
  attributes : List Attribute
deriving DecidableEq, Repr, Inhabited

namespace Block

/-- The first attribute with a name. -/
def attribute? (b : Block) (name : String) : Option Attribute :=
  b.attributes.find? fun a => a.name == name

/-- Whether a block has an attribute with a name. -/
def hasAttribute (b : Block) (name : String) : Bool := (b.attribute? name).isSome

/-- The dialect a block declares; an empty one counts as none. -/
def lang? (b : Block) : Option String :=
  ((b.attribute? "lang").bind Attribute.value).filter fun lang => !lang.isEmpty

/-- The file a block says its content is in. -/
def src? (b : Block) : Option String := (b.attribute? "src").bind Attribute.value

end Block

/-- A style block. -/
structure StyleBlock where
  isScoped : Bool
  /-- The name its classes are bound to, if they are. -/
  bindingName : Option String
  block : Block
deriving DecidableEq, Repr, Inhabited

/-- The name that the classes of a style block are bound to when it gives none. -/
def defaultModule : String := "$style"

/-- A block as a style block. -/
def StyleBlock.ofBlock (b : Block) : StyleBlock :=
  let bindingName := (b.attribute? "module").map fun a =>
    match a.value with
    | some name => if name.isEmpty then defaultModule else name
    | none => defaultModule
  ⟨b.hasAttribute "scoped", bindingName, b⟩

/-- All blocks of a component. -/
structure Descriptor where
  template : Option Block
  script : Option Block
  styles : List StyleBlock
  custom : List Block
deriving DecidableEq, Repr, Inhabited

/-- No blocks. -/
def Descriptor.empty : Descriptor := ⟨none, none, [], []⟩

/-! ## §2. Padding -/

/-- How the content of a block is padded. -/
inductive Padding where
  | none
  /-- One line for each line of the file in front of the content. -/
  | lines
  /-- One space for each character in front of the content; line feeds stay. -/
  | spaces
deriving DecidableEq, Repr, Inhabited

/-- A line of padding for a block: a comment in a plain script, which is checked by line. -/
def paddingLine (tag : String) (lang : Option String) : List Char :=
  if sameName tag "script" && lang.isNone then ['/', '/', '\n'] else ['\n']

/-- The padding of a block behind some text. -/
def Padding.text (padding : Padding) (tag : String) (lang : Option String)
    (before : List Char) : List Char :=
  if sameName tag "template" then []
  else match padding with
    | .none => []
    | .lines => (List.replicate (before.count '\n') (paddingLine tag lang)).flatten
    | .spaces => before.map fun c => if c == '\n' then '\n' else ' '

/-! ## §3. Issues -/

/-- What is wrong with a component. -/
inductive Issue where
  /-- A second template or script. -/
  | duplicateBlock (tag : String)
  /-- A block without its end tag. -/
  | unclosedBlock (tag : String)
  /-- A tag that is not closed. -/
  | unclosedTag (tag : String)
  | unterminatedComment
deriving DecidableEq, Repr, Inhabited

/-- What is said about an issue. -/
def Issue.message : Issue → String
  | duplicateBlock tag => "duplicate <" ++ tag ++ "> block, only the first one is used"
  | unclosedBlock tag => "unclosed block: <" ++ tag ++ ">"
  | unclosedTag tag => "unclosed tag: <" ++ tag
  | unterminatedComment => "unterminated comment"

/-- An issue and where it was found. -/
structure PlacedIssue where
  issue : Issue
  span : Span
deriving DecidableEq, Repr, Inhabited

end SingleFile.Markup
