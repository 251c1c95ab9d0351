import ResourceQuery.OrderedMap
import ResourceQuery.Resource
import ResourceQuery.Registry.Basic
import ResourceQuery.Registry.ParentChain
import ResourceQuery.Registry.Validity
import ResourceQuery.Registry.Listing
import ResourceQuery.Registry.GitHub
import ResourceQuery.Query.VariableSet
import ResourceQuery.Query.Selection
import ResourceQuery.Query.Compile
import ResourceQuery.Decimal.Shortest
import ResourceQuery.Text.Unprintable
import ResourceQuery.Text.Escaped
import ResourceQuery.Json.Basic
import ResourceQuery.Json.Fault
import ResourceQuery.Json.Numeral
import ResourceQuery.Json.Quoted
import ResourceQuery.Json.Reading
import ResourceQuery.Json.Document
import ResourceQuery.Json.Decode
import ResourceQuery.Json.Schema
import ResourceQuery.Cli.Command
import ResourceQuery.Cli.Directory
import ResourceQuery.Cli.Configuration
import ResourceQuery.Cli.Run
import ResourceQuery.Main
import ResourceQuery.Proofs.Fallible
import ResourceQuery.Proofs.FirstOccurrences
import ResourceQuery.Proofs.TextPieces
import ResourceQuery.Proofs.Placement
import ResourceQuery.Proofs.Coverage
import ResourceQuery.Proofs.Rendering
import ResourceQuery.Proofs.Nesting
import ResourceQuery.Proofs.Merging
import ResourceQuery.Proofs.Layout
import ResourceQuery.Proofs.Declarations
import ResourceQuery.Proofs.Walks
import ResourceQuery.Proofs.Failure
import ResourceQuery.Proofs.VariableUse
import ResourceQuery.Proofs.BuiltIn
import ResourceQuery.Proofs.Brackets
import ResourceQuery.Proofs.Validation
import ResourceQuery.Proofs.Reordering
import ResourceQuery.Proofs.Flatness
import ResourceQuery.Proofs.Locality
import ResourceQuery.Proofs.NormalForm
import ResourceQuery.Proofs.WrittenText
import ResourceQuery.Proofs.RoundTrip
import ResourceQuery.Proofs.Lexemes
import ResourceQuery.Proofs.Trees
import ResourceQuery.Proofs.Spellings
import ResourceQuery.Proofs.AnySpelling
import ResourceQuery.Proofs.Registration
import ResourceQuery.Proofs.CutTexts
import ResourceQuery.Proofs.EarlyEnds
import ResourceQuery.Proofs.Truncation
import ResourceQuery.Proofs.CommandLine
import ResourceQuery.Proofs.Occurrences
import ResourceQuery.Proofs.RateLimit
import ResourceQuery.Proofs.PageSizes
import ResourceQuery.Proofs.Insertions
import ResourceQuery.Proofs.Flags
import ResourceQuery.Proofs.Limits
import ResourceQuery.Proofs.Ancestors
import ResourceQuery.Proofs.CallHistory
import ResourceQuery.Proofs.Listed
