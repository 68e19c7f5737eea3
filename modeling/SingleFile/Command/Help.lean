/-
  SingleFile.Command.Help — HELP ON THE COMMAND LINE
  ──────────────────────────────────────────────────
  Help comes in a short form and a long one.  Both put what an option does
  below its name; the long form leaves lines between options, and tells
  defaults and possible values in lines of their own.
-/

namespace SingleFile.Command

/-! ## §1. Options -/

/-- A value that an option may have. -/
structure PossibleValue where
  name : String
  about : String
deriving DecidableEq, Repr, Inhabited

/-- What is known of an option. -/
structure OptionHelp where
  /-- Its names as shown, in columns for the short and the long one. -/
  names : String
  about : String
  default : Option String
  possible : List PossibleValue
deriving DecidableEq, Repr, Inhabited

/-- An option without a default. -/
def plainOption (names about : String) : OptionHelp := ⟨names, about, none, []⟩

/-- The options, in the order in which they are shown. -/
def optionHelps (isLong : Bool) : List OptionHelp :=
  [⟨"    --cwd <CWD>",
      "Project root: configuration files and node packages resolve from here", some ".", []⟩,
    plainOption "    --out-dir <OUT_DIR>"
      "Write \x60<name>.js\x60 and \x60<name>.js.map\x60 here instead of printing JSON lines",
    plainOption "    --stdin-filename <STDIN_FILENAME>"
      "Read one component from stdin, reported under this path",
    ⟨"    --extension <EXTENSIONS>", "File extensions picked up when walking directories",
      some "vue", []⟩,
    plainOption "    --ignore <IGNORE>" "Glob patterns to ignore",
    plainOption "    --node <NODE>" "Path to the node binary",
    ⟨"    --normalizer <NORMALIZER>", "How render functions are normalized", some "swc",
      [⟨"swc", "Syntax check in process (default)"⟩,
        ⟨"node", "\x60vue-template-es2015-compiler\x60 through node"⟩]⟩,
    plainOption "-v, --verbose" "Log debug output to stderr",
    plainOption "-h, --help"
      (if isLong then "Print help (see a summary with '-h')"
        else "Print help (see more with '--help')"),
    plainOption "-V, --version" "Print version"]

/-! ## §2. Lines -/

/-- The column in which texts about options begin. -/
def aboutMargin : String := "          "

/-- The lines about an option in the short form. -/
def shortLines (o : OptionHelp) : List String :=
  let default := (o.default.map fun value => " [default: " ++ value ++ "]").getD ""
  let possible := if o.possible.isEmpty then "" else
    " [possible values: " ++ ", ".intercalate (o.possible.map PossibleValue.name) ++ "]"
  ["  " ++ o.names, aboutMargin ++ o.about ++ default ++ possible]

/-- The lines about the possible values of an option; the texts about them are aligned. -/
def possibleLines (values : List PossibleValue) : List String :=
  let width := (values.map fun v => v.name.length).foldl max 0
  let line (v : PossibleValue) : String :=
    let padding := String.ofList (List.replicate (width - v.name.length) ' ')
    aboutMargin ++ "- " ++ v.name ++ ": " ++ padding ++ v.about
  if values.isEmpty then [] else ["", aboutMargin ++ "Possible values:"] ++ values.map line

/-- The lines about an option in the long form. -/
def longLines (o : OptionHelp) : List String :=
  let default := match o.default with
    | some value => [aboutMargin, aboutMargin ++ "[default: " ++ value ++ "]"]
    | none => []
  ["  " ++ o.names, aboutMargin ++ o.about] ++ default ++ possibleLines o.possible

/-- The lines about the inputs. -/
def inputLines (isLong : Bool) : List String :=
  let about := "Component files or directories to transform (default: the working directory)"
  if isLong then ["  [INPUTS]...", aboutMargin ++ about] else ["  [INPUTS]...  " ++ about]

/-- The lines of help. -/
def helpLines (isLong : Bool) : List String :=
  let options := (optionHelps isLong).map (if isLong then longLines else shortLines)
  ["Transforms single-file components into CommonJS test modules with line source maps", "",
    "Usage: sfc-jest [OPTIONS] [INPUTS]...", "", "Arguments:"]
    ++ inputLines isLong ++ ["", "Options:"]
    ++ (if isLong then [""].intercalate options else options.flatten)

/-- The line that tells the version. -/
def versionLine : String := "sfc-jest 0.9.5"

end SingleFile.Command
