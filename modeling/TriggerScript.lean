import TriggerScript.Assembly.Body
import TriggerScript.Assembly.CompileError
import TriggerScript.Assembly.Draft
import TriggerScript.Assembly.Link
import TriggerScript.Assembly.Program
import TriggerScript.Catalog.Basic
import TriggerScript.Catalog.Description
import TriggerScript.Catalog.Load
import TriggerScript.Command.Arguments
import TriggerScript.Command.Run
import TriggerScript.Compile
import TriggerScript.Constant
import TriggerScript.Directory
import TriggerScript.Event
import TriggerScript.Image.Codec
import TriggerScript.Image.Program
import TriggerScript.Instruction
import TriggerScript.Main
import TriggerScript.Method
import TriggerScript.Node.Basic
import TriggerScript.Node.Outline
import TriggerScript.Node.ParseError
import TriggerScript.Node.Parser
import TriggerScript.Node.Reader
import TriggerScript.Program.Basic
import TriggerScript.Program.Listing
import TriggerScript.Proofs.BodyCode
import TriggerScript.Proofs.Symbols
import TriggerScript.Text.Blank
import TriggerScript.Text.Decimal
import TriggerScript.Text.Outline
import TriggerScript.Text.Quoted
import TriggerScript.Text.Shown
import TriggerScript.Token.Basic
import TriggerScript.Token.Listing
import TriggerScript.Token.Scanner
import TriggerScript.ValueType
import TriggerScript.Proofs.Linking
import TriggerScript.Proofs.Declarations
import TriggerScript.Proofs.Script
import TriggerScript.Proofs.Generator
import TriggerScript.Proofs.AddressLayout
import TriggerScript.Proofs.WellFormed
import TriggerScript.Proofs.Semantics
import TriggerScript.Proofs.Simulation
import TriggerScript.Proofs.ImageRoundTrip
import TriggerScript.Proofs.StaticCheck
import TriggerScript.Proofs.Acceptance
import TriggerScript.Proofs.Grammar
import TriggerScript.Proofs.ParserSoundness
import TriggerScript.Proofs.ParserCompleteness
import TriggerScript.Proofs.ParserLanguage
import TriggerScript.Proofs.Lexemes
import TriggerScript.Proofs.Rendering
import TriggerScript.Proofs.SourceRoundTrip
import TriggerScript.Proofs.Layout
import TriggerScript.Proofs.Lookahead
import TriggerScript.Proofs.Lossless
import TriggerScript.Proofs.Places
import TriggerScript.Proofs.Stages
import TriggerScript.Proofs.LayoutInsensitivity
import TriggerScript.Proofs.TextPieces
import TriggerScript.Proofs.CatalogFormat
import TriggerScript.Proofs.TriggerIsolation
import TriggerScript.Proofs.Subtrees
import TriggerScript.Proofs.UnreachableErrors
import TriggerScript.Proofs.Records
import TriggerScript.Proofs.ScriptRecords
import TriggerScript.Proofs.NamedCode
import TriggerScript.Proofs.ScriptPrograms
import TriggerScript.Proofs.DeclarationOrder
import TriggerScript.Proofs.CatalogExtension
import TriggerScript.Proofs.Renaming
import TriggerScript.Proofs.RenamedPrograms
import TriggerScript.Proofs.MaximalMunch
import TriggerScript.Proofs.Agenda
import TriggerScript.Proofs.CorrectPrefix
import TriggerScript.Proofs.Visits
import TriggerScript.Proofs.CallResolution
import TriggerScript.Proofs.Extent
import TriggerScript.Proofs.MachineWords
import TriggerScript.Proofs.CommandLine
import TriggerScript.Proofs.FileHosts
import TriggerScript.Proofs.ImageTruncation
import TriggerScript.Proofs.ImageGrammar
import TriggerScript.Proofs.AcceptedImages
import TriggerScript.Proofs.ScriptTrees
import TriggerScript.Proofs.ConstantTable
import TriggerScript.Proofs.LabelNumbers
import TriggerScript.Proofs.BranchPatches
import TriggerScript.Proofs.LineBreaks
import TriggerScript.Proofs.CatalogComposition
import TriggerScript.Proofs.ScanErrors
import TriggerScript.Proofs.ListingText
import TriggerScript.Proofs.ListingLines
import TriggerScript.Proofs.ListingCode
import TriggerScript.Proofs.PulledTokens
import TriggerScript.Proofs.MethodFrames
import TriggerScript.Proofs.NumeralLimits
import TriggerScript.Proofs.PoolHistory
import TriggerScript.Proofs.ReaderPositions
