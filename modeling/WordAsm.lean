import WordAsm.Assembler
import WordAsm.Assembler.Trace
import WordAsm.BitField
import WordAsm.Check
import WordAsm.Class
import WordAsm.Command.Arguments
import WordAsm.Command.Assemble
import WordAsm.Command.Directory
import WordAsm.Command.Disassemble
import WordAsm.Command.Outcome
import WordAsm.Command.Path
import WordAsm.Diagnostic
import WordAsm.Directive
import WordAsm.Fault
import WordAsm.Format
import WordAsm.Format.Reader
import WordAsm.Image
import WordAsm.InstructionSet
import WordAsm.InstructionSet.Builtin
import WordAsm.InstructionSet.Definition
import WordAsm.Layout
import WordAsm.Listing
import WordAsm.Listing.Chunk
import WordAsm.Listing.Data
import WordAsm.Listing.Decoder
import WordAsm.Listing.Flow
import WordAsm.Listing.Line
import WordAsm.Main
import WordAsm.NameMap
import WordAsm.Position
import WordAsm.Proofs.AcceptedDefinitions
import WordAsm.Proofs.BranchLabels
import WordAsm.Proofs.BuiltinSet
import WordAsm.Proofs.Checks
import WordAsm.Proofs.DataBlocks
import WordAsm.Proofs.DataSlots
import WordAsm.Proofs.DecoderChoice
import WordAsm.Proofs.DefinitionOrder
import WordAsm.Proofs.Derivations
import WordAsm.Proofs.DerivedFields
import WordAsm.Proofs.Diagnostics
import WordAsm.Proofs.Expansion
import WordAsm.Proofs.FieldOrders
import WordAsm.Proofs.FormatText
import WordAsm.Proofs.FormatWords
import WordAsm.Proofs.InstructionCoding
import WordAsm.Proofs.InstructionEncoding
import WordAsm.Proofs.LabelNumbers
import WordAsm.Proofs.LabelRenaming
import WordAsm.Proofs.LayoutAgreement
import WordAsm.Proofs.LayoutSpecification
import WordAsm.Proofs.LexicalGrammar
import WordAsm.Proofs.LineComposition
import WordAsm.Proofs.ListingCode
import WordAsm.Proofs.ListingData
import WordAsm.Proofs.ListingImage
import WordAsm.Proofs.ListingLayout
import WordAsm.Proofs.ListingLines
import WordAsm.Proofs.ListingSegments
import WordAsm.Proofs.ListingText
import WordAsm.Proofs.LoadConstant
import WordAsm.Proofs.LowerCase
import WordAsm.Proofs.MnemonicSpelling
import WordAsm.Proofs.NameMaps
import WordAsm.Proofs.NameTables
import WordAsm.Proofs.Numerals
import WordAsm.Proofs.OperandValues
import WordAsm.Proofs.Outcomes
import WordAsm.Proofs.Parsing
import WordAsm.Proofs.Placement
import WordAsm.Proofs.Reachability
import WordAsm.Proofs.RealInstructions
import WordAsm.Proofs.RecursiveExpansion
import WordAsm.Proofs.RoundTrip
import WordAsm.Proofs.Scanning
import WordAsm.Proofs.SetNames
import WordAsm.Proofs.SoundExpansion
import WordAsm.Proofs.SoundPrograms
import WordAsm.Proofs.SourceCoverage
import WordAsm.Proofs.SourcePositions
import WordAsm.Proofs.Surroundings
import WordAsm.Proofs.TextOrder
import WordAsm.Proofs.ValidFormats
import WordAsm.Proofs.Words
import WordAsm.Proofs.Worklist
import WordAsm.Proofs.WrittenFiles
import WordAsm.Pseudo
import WordAsm.Pseudo.Expansion
import WordAsm.Sorted
import WordAsm.Statement
import WordAsm.Statement.Grammar
import WordAsm.Text.Blank
import WordAsm.Text.Digit
import WordAsm.Text.Letter
import WordAsm.Text.Lower
import WordAsm.Text.Numeral
import WordAsm.Text.Printable
import WordAsm.Text.Quoted
import WordAsm.Text.Ranges
import WordAsm.Text.Utf8
import WordAsm.Token
import WordAsm.Token.Scanner
import WordAsm.Word
