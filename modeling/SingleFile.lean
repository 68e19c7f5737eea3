import SingleFile.Command.Arguments
import SingleFile.Command.Help
import SingleFile.Command.Inputs
import SingleFile.Command.Output
import SingleFile.Command.Run
import SingleFile.Component.Assembly
import SingleFile.Component.Diagnostic
import SingleFile.Component.Failure
import SingleFile.Component.RenderFunction
import SingleFile.Component.ScriptLanguage
import SingleFile.Component.Template
import SingleFile.Component.Transform
import SingleFile.Config.Comments
import SingleFile.Config.Discovery
import SingleFile.Config.Failure
import SingleFile.Config.Literal
import SingleFile.Config.Transpiler
import SingleFile.Config.TypeCheck
import SingleFile.Files.Change
import SingleFile.Files.Glob
import SingleFile.Files.Path
import SingleFile.Files.Tree
import SingleFile.Json.Decode
import SingleFile.Json.Term
import SingleFile.Json.Value
import SingleFile.Json.Writer
import SingleFile.LineMap.Basic
import SingleFile.LineMap.Json
import SingleFile.LineMap.Vlq
import SingleFile.Main
import SingleFile.Markup.Block
import SingleFile.Markup.Extraction
import SingleFile.Markup.Tag
import SingleFile.Markup.Token
import SingleFile.Number.Binary64
import SingleFile.Script.Edit
import SingleFile.Script.Enum
import SingleFile.Script.Erasure
import SingleFile.Script.Grammar.Basic
import SingleFile.Script.Grammar.Class
import SingleFile.Script.Grammar.Declaration
import SingleFile.Script.Grammar.Expression
import SingleFile.Script.Grammar.Function
import SingleFile.Script.Grammar.Literal
import SingleFile.Script.Grammar.Module
import SingleFile.Script.Grammar.Pattern
import SingleFile.Script.Grammar.Statement
import SingleFile.Script.Grammar.Type
import SingleFile.Script.Helper
import SingleFile.Script.Keyword
import SingleFile.Script.Lowering
import SingleFile.Script.Parse
import SingleFile.Script.Reference
import SingleFile.Script.Rewrite
import SingleFile.Script.Syntax
import SingleFile.Script.Token
import SingleFile.Text.Blank
import SingleFile.Text.Case
import SingleFile.Text.CodeUnit
import SingleFile.Text.Cursor
import SingleFile.Text.Identifier
import SingleFile.Text.LineIndex
import SingleFile.Text.Offset
import SingleFile.Text.Span
import SingleFile.Toolchain.Message
import SingleFile.Toolchain.Node
import SingleFile.Proofs.LineMap.Vlq
import SingleFile.Proofs.LineMap.Mappings
import SingleFile.Proofs.Text.Cuts
import SingleFile.Proofs.Text.Lines
import SingleFile.Proofs.Markup.Progress
import SingleFile.Proofs.Markup.Displacement
import SingleFile.Proofs.Markup.WrittenTag
import SingleFile.Proofs.Markup.RawText
import SingleFile.Proofs.Markup.WrittenDocument
import SingleFile.Proofs.Markup.Forest
import SingleFile.Proofs.Component.Placement
import SingleFile.Proofs.Component.Alignment
import SingleFile.Proofs.Script.EditFrame
import SingleFile.Proofs.Script.EditLines
import SingleFile.Proofs.Script.Walk
import SingleFile.Proofs.Script.ErasureForms
import SingleFile.Proofs.Script.ErasureLines
import SingleFile.Proofs.Script.CopiedLines
import SingleFile.Proofs.Script.LoweringSteps
import SingleFile.Proofs.Script.Evaluation
import SingleFile.Proofs.Script.RewriteLines
import SingleFile.Proofs.Script.RewrittenExports
import SingleFile.Proofs.Script.ModuleForms
import SingleFile.Proofs.Script.ErasureFrame
import SingleFile.Proofs.Script.ModuleFrame
import SingleFile.Proofs.Script.LoweringEffects
import SingleFile.Proofs.Script.ExportNames
import SingleFile.Proofs.Script.ExportStatements
import SingleFile.Proofs.Script.Exports
import SingleFile.Proofs.Markup.Accounting
import SingleFile.Proofs.Component.Outcome
import SingleFile.Proofs.Script.ItemActions
import SingleFile.Proofs.Script.ImportActions
import SingleFile.Proofs.Script.ErasureRefusals
import SingleFile.Proofs.Script.RefusalOrder
import SingleFile.Proofs.Script.Refusals
import SingleFile.Proofs.Script.ValueUse
import SingleFile.Proofs.Script.Elision
import SingleFile.Proofs.Files.Steps
import SingleFile.Proofs.Files.Resolution
import SingleFile.Proofs.Files.Writing
import SingleFile.Proofs.Command.Containment
import SingleFile.Proofs.Command.Emission
import SingleFile.Proofs.Command.Distinctness
import SingleFile.Proofs.Number.Rounding
import SingleFile.Proofs.Number.Decimal
import SingleFile.Proofs.Script.Literals
import SingleFile.Proofs.Script.EnumMeaning
import SingleFile.Proofs.Script.EnumLowering
import SingleFile.Proofs.Component.FunctionCheck
import SingleFile.Proofs.Config.Environments
import SingleFile.Proofs.Component.ModuleForm
import SingleFile.Proofs.Config.Bases
import SingleFile.Proofs.Files.Ancestors
import SingleFile.Proofs.Config.Search
import SingleFile.Proofs.Script.EditPlaces
import SingleFile.Proofs.Json.Spelling
import SingleFile.Proofs.Json.Tokens
import SingleFile.Proofs.Json.Reading
import SingleFile.Proofs.Json.Values
import SingleFile.Proofs.Config.PlainJson
import SingleFile.Proofs.Script.ImportMeaning
import SingleFile.Proofs.Script.ImportLowering
import SingleFile.Proofs.Json.Alike
import SingleFile.Proofs.Config.LiteralValues
import SingleFile.Proofs.Config.LiteralFiles
import SingleFile.Proofs.Script.EditOrder
import SingleFile.Proofs.Script.BlankedText
import SingleFile.Proofs.Script.Columns
import SingleFile.Proofs.Script.PlainTrees
import SingleFile.Proofs.Script.PlainScripts
import SingleFile.Proofs.Component.MarkedScripts
import SingleFile.Proofs.Markup.Descriptor
import SingleFile.Proofs.Markup.Padding
import SingleFile.Proofs.Markup.Spans
import SingleFile.Proofs.Markup.BrokenTags
import SingleFile.Proofs.Markup.UnquotedValues
import SingleFile.Proofs.Ordered
import SingleFile.Proofs.Text.Positions
import SingleFile.Proofs.LineMap.Lookups
import SingleFile.Proofs.Markup.Tokens
import SingleFile.Proofs.Script.MadeNames
import SingleFile.Proofs.Script.SpelledTexts
import SingleFile.Proofs.Script.NameAccounts
import SingleFile.Proofs.Script.ItemAccounts
import SingleFile.Proofs.Script.FreshNames
import SingleFile.Proofs.LineMap.Numbers
import SingleFile.Proofs.Markup.Scanning
import SingleFile.Proofs.Command.Collection
import SingleFile.Proofs.Script.ErasureReach
import SingleFile.Proofs.Script.Overlaps
