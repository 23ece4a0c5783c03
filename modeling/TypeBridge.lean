import TypeBridge.Builtin
import TypeBridge.CommandLine.Arguments
import TypeBridge.CommandLine.Folder
import TypeBridge.CommandLine.Run
import TypeBridge.Conversion
import TypeBridge.Decimal
import TypeBridge.Declaration.Basic
import TypeBridge.Declaration.Printer
import TypeBridge.Declaration.Walk
import TypeBridge.Declare
import TypeBridge.Directive
import TypeBridge.Double
import TypeBridge.Error
import TypeBridge.Generics
import TypeBridge.Graph
import TypeBridge.Json.Basic
import TypeBridge.Json.Numeral
import TypeBridge.Json.Reader
import TypeBridge.Json.Scalar
import TypeBridge.Keyed
import TypeBridge.Main
import TypeBridge.Mapping
import TypeBridge.Marks
import TypeBridge.Outcome
import TypeBridge.Override
import TypeBridge.Pass.Catalog
import TypeBridge.Pass.Dangling
import TypeBridge.Pass.Forms
import TypeBridge.Pass.Modifiers
import TypeBridge.Pass.NullArms
import TypeBridge.Proofs.Agreement
import TypeBridge.Proofs.Closure
import TypeBridge.Proofs.Conversion
import TypeBridge.Proofs.Declare
import TypeBridge.Proofs.Enums
import TypeBridge.Proofs.Keyed
import TypeBridge.Proofs.MappedTypes
import TypeBridge.Proofs.Mapping
import TypeBridge.Proofs.Marks
import TypeBridge.Proofs.Occurrence
import TypeBridge.Proofs.Outcome
import TypeBridge.Proofs.Progress
import TypeBridge.Proofs.Reachable
import TypeBridge.Proofs.References
import TypeBridge.Proofs.Reordering
import TypeBridge.Proofs.Resolution
import TypeBridge.Proofs.Store
import TypeBridge.Proofs.Workspace
import TypeBridge.Source.Basic
import TypeBridge.Source.Dump
import TypeBridge.Source.DumpText
import TypeBridge.Store
import TypeBridge.Tag
import TypeBridge.Text.Basic
import TypeBridge.Text.Uppercase
import TypeBridge.Text.Visible
import TypeBridge.TypeText.Parser
import TypeBridge.TypeText.Token
import TypeBridge.Workspace
import TypeBridge.Proofs.Generics
import TypeBridge.Proofs.Hygiene
import TypeBridge.Proofs.Arity
import TypeBridge.Proofs.Ownership
import TypeBridge.Proofs.Termination
import TypeBridge.Proofs.Walk
import TypeBridge.Proofs.NullArms
import TypeBridge.Proofs.Pass
import TypeBridge.Proofs.Commuting
import TypeBridge.Proofs.WellKeyed
import TypeBridge.Proofs.MemberNames
import TypeBridge.Proofs.VisitOrder
import TypeBridge.Proofs.Text
import TypeBridge.Proofs.TypeGrammar
import TypeBridge.Proofs.Scanning
import TypeBridge.Proofs.TagGrammar
import TypeBridge.Proofs.TagBytes
import TypeBridge.Proofs.TypeReader
import TypeBridge.Proofs.Spelling
import TypeBridge.Proofs.Strength
import TypeBridge.Proofs.ReadBack
import TypeBridge.Proofs.StoreHistory
import TypeBridge.Proofs.SweepHistory
import TypeBridge.Proofs.Repeating
import TypeBridge.Proofs.EmptyUnions
import TypeBridge.Proofs.Dangling
import TypeBridge.Proofs.NullRemoval
import TypeBridge.Proofs.DroppedFields
import TypeBridge.Proofs.DumpEdits
import TypeBridge.Proofs.DumpRoundTrip
import TypeBridge.Proofs.ValueLists
import TypeBridge.Proofs.Trimming
import TypeBridge.Proofs.Exposure
import TypeBridge.Proofs.Exporting
import TypeBridge.Proofs.Unprintable
import TypeBridge.Proofs.Rendering
import TypeBridge.Proofs.CommentText
import TypeBridge.Proofs.SourceComments
import TypeBridge.Proofs.ShownText
import TypeBridge.Proofs.Uncommented
import TypeBridge.Proofs.Simplifying
import TypeBridge.Proofs.Blame
import TypeBridge.Proofs.Describing
import TypeBridge.Proofs.Respelling
import TypeBridge.Proofs.IgnoreDirectives
import TypeBridge.Proofs.Tiling
import TypeBridge.Proofs.Threading
