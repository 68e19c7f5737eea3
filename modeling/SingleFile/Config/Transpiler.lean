/-
  SingleFile.Config.Transpiler — TRANSPILER CONFIGURATION
  ───────────────────────────────────────────────────────
  Presets and plugins, each named by its package and perhaps with options.
  A configuration may hold sections for environments, whose presets and
  plugins are added to its own.
-/
import SingleFile.Json.Decode
import SingleFile.Text.Offset

namespace SingleFile.Config

open SingleFile.Json SingleFile.Text

/-! ## §1. Entries -/

/-- A preset or plugin. -/
inductive Entry where
  | named (name : String)
  /-- A list of the name and the options. -/
  | configured (parts : List Value)
deriving Repr, Inhabited

/-- What a package name may begin with. -/
def packagePrefixes : List String :=
  ["@babel/preset-", "@babel/plugin-", "babel-preset-", "babel-plugin-", "@babel/"]

/-- A package name without what it begins with. -/
def shortName (name : String) : String :=
  let stripped := packagePrefixes.findSome? fun start => afterPrefix? start.toList name.toList
  (stripped.map String.ofList).getD name

namespace Entry

/-- The package an entry names. -/
def name? : Entry → Option String
  | named name => some name
  | configured parts => parts.head?.bind Value.text?

/-- The short name of an entry's package. -/
def shortName? (e : Entry) : Option String := e.name?.map shortName

/-- The options of an entry. -/
def options? : Entry → Option Value
  | named _ => none
  | configured parts => parts[1]?

/-- Reads an entry. -/
def decoder : Decoder Entry := fun levels t =>
  match t with
  | .string _ => (Decoder.text levels t).map named
  | _ => (Decoder.list Decoder.value levels t).map configured

end Entry

/-! ## §2. Configurations -/

/-- A transpiler configuration. -/
inductive Transpiler where
  | mk (presets plugins : List Entry) (environments : List (String × Transpiler))
deriving Repr, Inhabited

namespace Transpiler

def presets : Transpiler → List Entry
  | mk presets _ _ => presets

def plugins : Transpiler → List Entry
  | mk _ plugins _ => plugins

/-- The sections for environments, each with its name. -/
def environments : Transpiler → List (String × Transpiler)
  | mk _ _ environments => environments

/-- The configuration of a project that has none. -/
def fallback : Transpiler := mk [.named "es2015"] [.named "transform-runtime"] []

/-- The first preset with a short name. -/
def preset? (c : Transpiler) (short : String) : Option Entry :=
  c.presets.find? fun e => e.shortName? == some short

/-- The first plugin with a short name. -/
def plugin? (c : Transpiler) (short : String) : Option Entry :=
  c.plugins.find? fun e => e.shortName? == some short

mutual

/-- The configuration for an environment: the entries of its sections come behind all
others. -/
def resolved (environment : String) : Transpiler → Transpiler
  | mk presets plugins environments =>
    match resolvedSection environment environments with
    | some added => mk (presets ++ added.presets) (plugins ++ added.plugins) []
    | none => mk presets plugins []

/-- The section of an environment, resolved itself. -/
def resolvedSection (environment : String) : List (String × Transpiler) → Option Transpiler
  | [] => none
  | (name, c) :: rest =>
    if name == environment then some (resolved environment c)
    else resolvedSection environment rest

end

/-! ## §3. Reading -/

/-- The sections of an object; the last one of a name counts. -/
def sections? (decoder : Decoder Transpiler) : Decoder (List (String × Transpiler)) :=
  fun levels t =>
  match levels, t with
  | levels + 1, .object members =>
    members.foldlM (fun sections m => do
      let name ← m.1
      let c ← decoder levels m.2
      return sections.filter (fun s => s.1 != name) ++ [(name, c)]) []
  | _, _ => none

/-- Reads a configuration in which sections are nested no deeper than a bound. -/
def decoderWithin : Nat → Decoder Transpiler
  | 0 => fun _ _ => none
  | bound + 1 => fun levels t => do
    match ← recordFields? ["presets", "plugins", "env"] levels t with
    | [presets, plugins, environments] =>
      return mk (← presets.withDefault (Decoder.list Entry.decoder) [])
        (← plugins.withDefault (Decoder.list Entry.decoder) [])
        (← environments.withDefault (sections? (decoderWithin bound)) [])
    | _ => none

/-- Reads a configuration.  A section is two levels below the one around it. -/
def decoder : Decoder Transpiler := fun levels t => decoderWithin (levels + 1) levels t

/-- Reads the configuration in a package description, if it has one. -/
def packageDecoder : Decoder (Option Transpiler) := fun levels t => do
  match ← recordFields? ["babel"] levels t with
  | [configuration] => configuration.optional decoder
  | _ => none

end Transpiler

end SingleFile.Config
