import WireSchema.Codec.Field
import WireSchema.Codec.Resolve
import WireSchema.Codec.Shape
import WireSchema.Command.Arguments
import WireSchema.Command.FileSystem
import WireSchema.Command.Help
import WireSchema.Command.Run
import WireSchema.Compile.Emit
import WireSchema.Compile.Parse
import WireSchema.Device.Frame
import WireSchema.Device.Message
import WireSchema.Emit.Basic
import WireSchema.Emit.Cpp
import WireSchema.Emit.CppSupport
import WireSchema.Emit.Rust
import WireSchema.Emit.StructOrder
import WireSchema.Emit.TypeScript
import WireSchema.Emit.TypeScriptSupport
import WireSchema.Layout.Basic
import WireSchema.Layout.Error
import WireSchema.Main
import WireSchema.Name.Reserved
import WireSchema.Name.Snake
import WireSchema.Number.Binary64
import WireSchema.Number.Literal
import WireSchema.Number.Shortest
import WireSchema.Parse.Declarations
import WireSchema.Parse.Decorators
import WireSchema.Parse.Error
import WireSchema.Parse.Schema
import WireSchema.Proofs.Acceptance
import WireSchema.Proofs.Allowed
import WireSchema.Proofs.BlockComment
import WireSchema.Proofs.Completed
import WireSchema.Proofs.CutText
import WireSchema.Proofs.Cycle
import WireSchema.Proofs.Declared
import WireSchema.Proofs.Decoder
import WireSchema.Proofs.DecoratorRun
import WireSchema.Proofs.DeviceSchema
import WireSchema.Proofs.DocComment
import WireSchema.Proofs.EmittedCodec
import WireSchema.Proofs.EmittedNames
import WireSchema.Proofs.EnumValue
import WireSchema.Proofs.FieldCodec
import WireSchema.Proofs.FileTree
import WireSchema.Proofs.FixedText
import WireSchema.Proofs.Frame
import WireSchema.Proofs.Generate
import WireSchema.Proofs.Guarded
import WireSchema.Proofs.ItemLoop
import WireSchema.Proofs.Keyword
import WireSchema.Proofs.LayoutDescent
import WireSchema.Proofs.LayoutPass
import WireSchema.Proofs.Lexed
import WireSchema.Proofs.Meaning
import WireSchema.Proofs.Message
import WireSchema.Proofs.MessageFault
import WireSchema.Proofs.MessageShape
import WireSchema.Proofs.Numeral
import WireSchema.Proofs.ParserMachine
import WireSchema.Proofs.ParserRun
import WireSchema.Proofs.Passes
import WireSchema.Proofs.Placed
import WireSchema.Proofs.Plain
import WireSchema.Proofs.PlainCode
import WireSchema.Proofs.PlainSchema
import WireSchema.Proofs.ReadRun
import WireSchema.Proofs.ReaderSpan
import WireSchema.Proofs.RecordedNumber
import WireSchema.Proofs.Reference
import WireSchema.Proofs.Rendered
import WireSchema.Proofs.Reread
import WireSchema.Proofs.Rounding
import WireSchema.Proofs.Shape
import WireSchema.Proofs.Sizing
import WireSchema.Proofs.SnakeCase
import WireSchema.Proofs.StructOrder
import WireSchema.Proofs.TokenPlace
import WireSchema.Proofs.Unframe
import WireSchema.Proofs.Utf8
import WireSchema.Proofs.Verified
import WireSchema.Proofs.WholeNumber
import WireSchema.Proofs.WholeWrite
import WireSchema.Proofs.Word
import WireSchema.Proofs.WriteRun
import WireSchema.Proofs.Writer
import WireSchema.Proofs.Written
import WireSchema.Schema.Basic
import WireSchema.Schema.DecoratorRule
import WireSchema.Schema.Json
import WireSchema.Schema.Type
import WireSchema.Schema.Verify
import WireSchema.Settings
import WireSchema.Text.Blank
import WireSchema.Text.Case
import WireSchema.Text.CaseTable
import WireSchema.Text.Quoted
import WireSchema.Text.Utf8
import WireSchema.Token
import WireSchema.Token.Lexeme
import WireSchema.Token.Lexer
import WireSchema.Toml.Document
import WireSchema.Toml.Reader
import WireSchema.Toml.Scalar
import WireSchema.Toml.Text
import WireSchema.Wire.Basic
import WireSchema.Wire.Decoder
import WireSchema.Wire.Scalar
import WireSchema.Wire.Writer
