import ProtoSchema.Path
import ProtoSchema.Bucket
import ProtoSchema.Text.Characters
import ProtoSchema.Annotation
import ProtoSchema.Number.Binary64
import ProtoSchema.Text.Utf8
import ProtoSchema.Source.Span
import ProtoSchema.Source.Token
import ProtoSchema.Source.Lexer
import ProtoSchema.Source.Ast
import ProtoSchema.Source.Parser.Basic
import ProtoSchema.Source.Parser.Options
import ProtoSchema.Source.Parser.Message
import ProtoSchema.Source.Parser.File
import ProtoSchema.Wire.Varint
import ProtoSchema.Wire.Field
import ProtoSchema.Descriptor.Basic
import ProtoSchema.Descriptor.Encode
import ProtoSchema.Descriptor.Decode
import ProtoSchema.Descriptor.Compare
import ProtoSchema.Image.Basic
import ProtoSchema.Image.Transform
import ProtoSchema.Image.Wire
import ProtoSchema.Yaml.Cursor
import ProtoSchema.Yaml.Token
import ProtoSchema.Yaml.Token.Scalar
import ProtoSchema.Yaml.Token.Property
import ProtoSchema.Yaml.Token.Scan
import ProtoSchema.Yaml.Event
import ProtoSchema.Yaml.Document
import ProtoSchema.Config
import ProtoSchema.FileSet
import ProtoSchema.Build.WellKnown
import ProtoSchema.SymbolTable.Basic
import ProtoSchema.SymbolTable.Collect
import ProtoSchema.Number.Decimal
import ProtoSchema.Descriptor.FieldType
import ProtoSchema.Compile.DefaultValue
import ProtoSchema.Compile.Context
import ProtoSchema.Compile.Options
import ProtoSchema.Compile.Field
import ProtoSchema.Compile.Enum
import ProtoSchema.Compile.Message
import ProtoSchema.Compile.File
import ProtoSchema.Build.Graph
import ProtoSchema.Build.Run
import ProtoSchema.Command
import ProtoSchema.Main
import ProtoSchema.Proofs.Monad
import ProtoSchema.Proofs.Path
import ProtoSchema.Proofs.FileSet
import ProtoSchema.Proofs.Image
import ProtoSchema.Proofs.Image.Closure
import ProtoSchema.Proofs.Image.Invariant
import ProtoSchema.Proofs.Image.Idempotent
import ProtoSchema.Proofs.Text.Utf8
import ProtoSchema.Proofs.Wire.Codec
import ProtoSchema.Proofs.Wire.Fields
import ProtoSchema.Proofs.Descriptor.RoundTrip
import ProtoSchema.Proofs.Image.Wire
import ProtoSchema.Proofs.Build.Graph
import ProtoSchema.Proofs.Build.Parse
import ProtoSchema.Proofs.Build.Closure
import ProtoSchema.Proofs.Build.Walk
import ProtoSchema.Proofs.Compile.File
import ProtoSchema.Proofs.Build.Compile
import ProtoSchema.Proofs.SymbolTable.Conflicts
import ProtoSchema.Proofs.Compile.Reports
import ProtoSchema.Proofs.Compile.Options
import ProtoSchema.Proofs.Build.Blame
import ProtoSchema.Proofs.Build.Result
import ProtoSchema.Proofs.Source.Package
import ProtoSchema.Proofs.SymbolTable.Declared
import ProtoSchema.Proofs.Build.PostOrder
import ProtoSchema.Proofs.Compile.Clean
import ProtoSchema.Proofs.Compile.Fields
import ProtoSchema.Proofs.SymbolTable.FieldNames
import ProtoSchema.Proofs.Compile.Messages
import ProtoSchema.Proofs.FileSet.Members
import ProtoSchema.Proofs.SymbolTable.Fresh
import ProtoSchema.Proofs.Compile.Enums
import ProtoSchema.Proofs.Source.Throughout
import ProtoSchema.Proofs.Source.Labels
import ProtoSchema.Proofs.Compile.Synthetic
import ProtoSchema.Proofs.Compile.Oneofs
import ProtoSchema.Proofs.Build.Checked
import ProtoSchema.Proofs.Compile.Located
import ProtoSchema.Proofs.Compile.FieldLocations
import ProtoSchema.Proofs.Compile.MessageLocations
import ProtoSchema.Proofs.Compile.FileLocations
import ProtoSchema.Proofs.Build.SourceInfo
import ProtoSchema.Proofs.Build.Visible
import ProtoSchema.Proofs.Descriptor.Paths
import ProtoSchema.Proofs.FileSet.Locate
import ProtoSchema.Proofs.SymbolTable.Decls
import ProtoSchema.Proofs.SymbolTable.Records
import ProtoSchema.Proofs.Build.Accountability
import ProtoSchema.Proofs.SymbolTable.Scoping
import ProtoSchema.Proofs.Compile.DefaultValues
import ProtoSchema.Proofs.Source.Rules
import ProtoSchema.Proofs.Descriptor.References
import ProtoSchema.Proofs.Compile.Types
import ProtoSchema.Proofs.Compile.Resolved
import ProtoSchema.Proofs.Build.Linked
import ProtoSchema.Proofs.Build.Propagate
import ProtoSchema.Proofs.Path.Segments
import ProtoSchema.Proofs.Annotation.Sorted
import ProtoSchema.Proofs.Source.Reads
import ProtoSchema.Proofs.Source.Progress
import ProtoSchema.Proofs.Source.Fuel
import ProtoSchema.Proofs.Build.Cycles
import ProtoSchema.Proofs.SymbolTable.Alike
import ProtoSchema.Proofs.SymbolTable.Twins
import ProtoSchema.Proofs.Compile.Agree
import ProtoSchema.Proofs.Compile.Hermetic
import ProtoSchema.Proofs.Build.LinkContext
