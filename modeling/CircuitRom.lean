import CircuitRom.Assembly
import CircuitRom.Assembly.Dump
import CircuitRom.Blueprint
import CircuitRom.Blueprint.Entity
import CircuitRom.Blueprint.Entity.Read
import CircuitRom.Blueprint.Entity.Write
import CircuitRom.Blueprint.Fault
import CircuitRom.Blueprint.Row
import CircuitRom.Blueprint.Text
import CircuitRom.Codec.Adler
import CircuitRom.Codec.Base64
import CircuitRom.Codec.Bits
import CircuitRom.Codec.Deflate
import CircuitRom.Codec.Huffman
import CircuitRom.Codec.Zlib
import CircuitRom.Command
import CircuitRom.Command.Action
import CircuitRom.Command.Arguments
import CircuitRom.Command.Files
import CircuitRom.Definition
import CircuitRom.Diagnostic
import CircuitRom.Diagnostic.Excerpt
import CircuitRom.Dictionary
import CircuitRom.Encoding
import CircuitRom.Instruction
import CircuitRom.Instruction.Encode
import CircuitRom.Json
import CircuitRom.Json.Numeral
import CircuitRom.Json.Source
import CircuitRom.Label
import CircuitRom.Label.Resolution
import CircuitRom.Literal
import CircuitRom.Macro
import CircuitRom.Macro.Dependency
import CircuitRom.Macro.Expansion
import CircuitRom.Main
import CircuitRom.Number.Binary64
import CircuitRom.Number.Decimal
import CircuitRom.Number.Shortest
import CircuitRom.Opcode
import CircuitRom.Path
import CircuitRom.Proofs.Acyclicity
import CircuitRom.Proofs.Call
import CircuitRom.Proofs.Declaration
import CircuitRom.Proofs.Inlining
import CircuitRom.Proofs.RoundLimit
import CircuitRom.Proofs.Search
import CircuitRom.Proofs.Sequencing
import CircuitRom.Proofs.Words
import CircuitRom.Register
import CircuitRom.Settings
import CircuitRom.Settings.File
import CircuitRom.Signal
import CircuitRom.Text.Blank
import CircuitRom.Text.Digits
import CircuitRom.Text.Hidden
import CircuitRom.Text.Letters
import CircuitRom.Text.Lines
import CircuitRom.Text.Style
import CircuitRom.Text.Utf8
import CircuitRom.Token
import CircuitRom.Token.Lexer
import CircuitRom.Update
import CircuitRom.Yaml
import CircuitRom.Yaml.Cursor
import CircuitRom.Yaml.Directive
import CircuitRom.Yaml.Fault
import CircuitRom.Yaml.Layout
import CircuitRom.Yaml.Node
import CircuitRom.Yaml.Scalar
import CircuitRom.Yaml.Scalar.Block
import CircuitRom.Yaml.Scalar.Plain
import CircuitRom.Yaml.Scalar.Quoted
import CircuitRom.Yaml.Tag
import CircuitRom.Yaml.Token
import CircuitRom.Yaml.Value
import CircuitRom.Proofs.Delimiters
import CircuitRom.Proofs.Agreement
import CircuitRom.Proofs.Operands
import CircuitRom.Proofs.Relexing
import CircuitRom.Proofs.Listing
import CircuitRom.Proofs.Binding
import CircuitRom.Proofs.Resolution
import CircuitRom.Proofs.Relocation
import CircuitRom.Proofs.Faults
import CircuitRom.Proofs.Wiring
import CircuitRom.Proofs.Networks
import CircuitRom.Proofs.FailedRuns
import CircuitRom.Proofs.Lookup
import CircuitRom.Proofs.SiteIndependence
import CircuitRom.Proofs.Base64
import CircuitRom.Proofs.BlueprintStrings
import CircuitRom.Proofs.BranchTargets
import CircuitRom.Proofs.Cutting
import CircuitRom.Proofs.LineGrammar
import CircuitRom.Proofs.DeclarationOrder
import CircuitRom.Proofs.NumericLabels
import CircuitRom.Proofs.Blocks
import CircuitRom.Proofs.Provenance
import CircuitRom.Proofs.Hygiene
import CircuitRom.Proofs.Construction
import CircuitRom.Proofs.Access
import CircuitRom.Proofs.InRange
import CircuitRom.Proofs.Reciprocity
import CircuitRom.Proofs.Readings
import CircuitRom.Proofs.SignalLists
import CircuitRom.Proofs.Unambiguity
import CircuitRom.Proofs.LabelSearch
import CircuitRom.Proofs.UnusedLabels
import CircuitRom.Proofs.Literals
import CircuitRom.Proofs.Numerals
import CircuitRom.Proofs.Placeholders
import CircuitRom.Proofs.Fences
import CircuitRom.Proofs.Collection
import CircuitRom.Proofs.Grouping
import CircuitRom.Proofs.Substitution
import CircuitRom.Proofs.Correspondence
import CircuitRom.Proofs.LetterCase
