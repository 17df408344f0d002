import NestedQuery.Binary64
import NestedQuery.Binary64.Shortest
import NestedQuery.Binary64.Text
import NestedQuery.CommandLine
import NestedQuery.DateTime
import NestedQuery.Decimal96
import NestedQuery.Diagnostic
import NestedQuery.Entries
import NestedQuery.Error
import NestedQuery.Eval
import NestedQuery.Evaluator
import NestedQuery.Evaluator.Modifier
import NestedQuery.Json
import NestedQuery.Json.Read
import NestedQuery.Json.Write
import NestedQuery.Main
import NestedQuery.Manual
import NestedQuery.Proofs.Calls
import NestedQuery.Proofs.Failure
import NestedQuery.Proofs.Grammar
import NestedQuery.Proofs.Grammar.Exact
import NestedQuery.Proofs.Laziness
import NestedQuery.Proofs.Lockstep
import NestedQuery.Proofs.Lookup
import NestedQuery.Proofs.Normalization
import NestedQuery.Proofs.PropertyPath
import NestedQuery.Proofs.Render
import NestedQuery.Proofs.Render.RoundTrip
import NestedQuery.Proofs.ResultShape
import NestedQuery.Proofs.Runs
import NestedQuery.Proofs.Shape
import NestedQuery.Proofs.Siblings
import NestedQuery.Proofs.Simulation
import NestedQuery.Proofs.Spelling
import NestedQuery.Proofs.Steady
import NestedQuery.Proofs.Strictness
import NestedQuery.Proofs.Unkeyed
import NestedQuery.PropertyPath
import NestedQuery.Query
import NestedQuery.Query.Outline
import NestedQuery.Query.ParseError
import NestedQuery.Query.Parser
import NestedQuery.Run
import NestedQuery.Session
import NestedQuery.Shuffle
import NestedQuery.Sorting
import NestedQuery.Sorting.Merge
import NestedQuery.Sorting.Runs
import NestedQuery.Proofs.Insertion
import NestedQuery.Proofs.Merging
import NestedQuery.Proofs.SortedRuns
import NestedQuery.Source
import NestedQuery.Text.Alphabetic
import NestedQuery.Text.CharClass
import NestedQuery.Text.CodeRanges
import NestedQuery.Text.Display
import NestedQuery.Text.GraphemeExtend
import NestedQuery.Text.Numeral
import NestedQuery.Text.Numeric
import NestedQuery.Text.Unprintable
import NestedQuery.Token
import NestedQuery.Token.Cursor
import NestedQuery.Token.Scan
import NestedQuery.Value
import NestedQuery.Value.Access
import NestedQuery.Value.Display
import NestedQuery.Value.Json
import NestedQuery.Value.Order
import NestedQuery.Proofs.Grammar.Follow
import NestedQuery.Proofs.ViablePrefix
import NestedQuery.Proofs.ViablePrefix.Entities
import NestedQuery.Proofs.UnexpectedToken
import NestedQuery.Proofs.Layout
import NestedQuery.Proofs.Places
import NestedQuery.Proofs.PlainValues
import NestedQuery.Proofs.Blanks
import NestedQuery.Proofs.Composition
import NestedQuery.Proofs.EveryKey
import NestedQuery.Proofs.Records
import NestedQuery.Proofs.Outline
import NestedQuery.Proofs.Conversion
import NestedQuery.Proofs.Rounding
import NestedQuery.Proofs.ValueOrder
import NestedQuery.Proofs.StableSort
import NestedQuery.Proofs.ProjectedSort
import NestedQuery.Proofs.MixedOrder
import NestedQuery.Proofs.PathPoints
import NestedQuery.Proofs.BracketedKeys
import NestedQuery.Proofs.IsoOrder
import NestedQuery.Proofs.DateSort
import NestedQuery.Proofs.Stored
import NestedQuery.Proofs.DottedPaths
import NestedQuery.Proofs.Stages
import NestedQuery.Proofs.SortComposition
import NestedQuery.Proofs.ShuffledSort
import NestedQuery.Proofs.Paging
import NestedQuery.Proofs.SlicedProjection
import NestedQuery.Proofs.PathSpelling
import NestedQuery.Proofs.JoinedPaths
import NestedQuery.Proofs.LexicalErrors
import NestedQuery.Proofs.SeparatedTexts
import NestedQuery.Proofs.WrittenTokens
import NestedQuery.Proofs.Progress
import NestedQuery.Proofs.LimitNumbers
import NestedQuery.Proofs.ValueEquality
