/-
  SingleFile.Toolchain.Message — REQUESTS AND RESPONSES
  ─────────────────────────────────────────────────────
  The project's own packages compile templates, in a process that reads one
  JSON request and writes one JSON response.
-/
import SingleFile.Component.Template
import SingleFile.Json.Decode

namespace SingleFile.Toolchain

open SingleFile.Json SingleFile.Component

/-! ## §1. Requests -/

/-- What can be asked for. -/
inductive Operation where
  | compile
  | pug
  | normalize
deriving DecidableEq, Repr, Inhabited

/-- What an operation is called. -/
def Operation.name : Operation → String
  | compile => "compile"
  | pug => "pug"
  | normalize => "normalize"

/-- A request. -/
structure Request where
  operation : Operation
  source : List Char
  /-- The path of the component, where the operation needs it. -/
  fileName : String
deriving DecidableEq, Repr, Inhabited

/-- A request as JSON. -/
def Request.toJson (r : Request) : Value :=
  .object [("op", .string r.operation.name), ("source", .string (String.ofList r.source)),
    ("filename", .string r.fileName)]

/-! ## §2. Problems -/

/-- What can go wrong with a request. -/
inductive Problem where
  /-- There is no such program. -/
  | notFound (what : String)
  | notStarted
  | exited (code : Nat) (output : String)
  | invalidResponse
  | unexpectedResult (operation : Operation)
  /-- The packages refused. -/
  | refused (operation : Operation) (message : String)
deriving DecidableEq, Repr, Inhabited

namespace Problem

/-- What is wrong with a response. -/
def flaw : Problem → String
  | unexpectedResult operation => "unexpected " ++ operation.name ++ " result"
  | _ => "invalid response"

/-- What is said about a problem. -/
def message : Problem → String
  | notFound what => "node binary not found: " ++ what
  | notStarted => "failed to spawn node"
  | exited code output => "node exited with code " ++ Nat.repr code ++ ": " ++ output
  | refused operation reason => operation.name ++ " failed: " ++ reason
  | invalidResponse => "node runner protocol error: " ++ flaw .invalidResponse
  | unexpectedResult operation =>
    "node runner protocol error: " ++ flaw (.unexpectedResult operation)

end Problem

/-! ## §3. Responses -/

/-- What a process left behind. -/
structure Reply where
  exitCode : Nat
  output : List Char
  errorOutput : List Char
deriving DecidableEq, Repr, Inhabited

/-- A response: a result, or what went wrong. -/
structure Response where
  succeeded : Bool
  result : Value
  error : Option String
deriving Repr, Inhabited

/-- Reads a response. -/
def Response.decoder : Decoder Response := fun levels t => do
  match ← recordFields? ["ok", "result", "error"] levels t with
  | [succeeded, result, error] =>
    return ⟨← succeeded.required Decoder.bool, ← result.withDefault Decoder.value .null,
      ← error.withDefault (Decoder.nullable Decoder.text) none⟩
  | _ => none

/-- A compiled template, with what the compiler had to say about it. -/
structure Compiled where
  code : RenderCode
  messages : List String
deriving DecidableEq, Repr, Inhabited

/-- Reads a compiled template. -/
def Compiled.decoder : Decoder Compiled := fun levels t => do
  match ← recordFields? ["render", "staticRenderFns", "errors"] levels t with
  | [render, staticRenders, messages] =>
    let render ← render.required Decoder.text
    let staticRenders ← staticRenders.withDefault (Decoder.list Decoder.text) []
    let messages ← messages.withDefault (Decoder.list Decoder.text) []
    return ⟨⟨render.toList, staticRenders.map String.toList⟩, messages⟩
  | _ => none

/-- Reads a text. -/
def textDecoder : Decoder (List Char) := fun levels t =>
  (Decoder.text levels t).map String.toList

/-- The result in the output of a process. -/
def resultOf {α : Type} (operation : Operation) (decoder : Decoder α) (output : List Char) :
    Except Problem α :=
  match decodeText? Response.decoder output with
  | none => .error .invalidResponse
  | some response =>
    if response.succeeded then
      match decodeValue? decoder response.result with
      | some a => .ok a
      | none => .error (.unexpectedResult operation)
    else .error (.refused operation (response.error.getD "unknown error"))

/-- The result that a process left behind. -/
def Reply.result {α : Type} (operation : Operation) (decoder : Decoder α) (reply : Reply) :
    Except Problem α :=
  if reply.exitCode = 0 then resultOf operation decoder reply.output
  else
    let output := String.ofList (Text.trim reply.errorOutput)
    .error (.exited reply.exitCode output)

end SingleFile.Toolchain
