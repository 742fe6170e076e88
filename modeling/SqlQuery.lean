import SqlQuery.Calendar.Reader
import SqlQuery.Calendar.Timestamp
import SqlQuery.Closure.Basic
import SqlQuery.Closure.Grammar
import SqlQuery.Closure.Lexer
import SqlQuery.Closure.Stream
import SqlQuery.Closure.Token
import SqlQuery.Collection
import SqlQuery.Decimal.Layout
import SqlQuery.Decimal.Reader
import SqlQuery.Decimal.Shortest
import SqlQuery.Entries
import SqlQuery.Error
import SqlQuery.Expr.Basic
import SqlQuery.Expr.Render
import SqlQuery.Field
import SqlQuery.Filter.Grammar
import SqlQuery.Filter.Lexer
import SqlQuery.Filter.Literal
import SqlQuery.Filter.Token
import SqlQuery.Json.Basic
import SqlQuery.Main
import SqlQuery.Method
import SqlQuery.Outcome
import SqlQuery.Pipeline
import SqlQuery.Query.Basic
import SqlQuery.Query.BuildError
import SqlQuery.Query.Builder
import SqlQuery.Query.Descriptor
import SqlQuery.Query.Merge
import SqlQuery.Query.Operand
import SqlQuery.Query.Source
import SqlQuery.Query.Step
import SqlQuery.Sql.Condition
import SqlQuery.Sql.Dialect
import SqlQuery.Sql.Expression
import SqlQuery.Sql.Like
import SqlQuery.Sql.Name
import SqlQuery.Sql.Statement
import SqlQuery.Text.Alphabetic
import SqlQuery.Text.CharClass
import SqlQuery.Text.Numeric
import SqlQuery.Text.Ranges
import SqlQuery.Text.Utf8
import SqlQuery.Text.Word
import SqlQuery.Value.Basic
import SqlQuery.Value.Encoding
import SqlQuery.Value.Reference
import SqlQuery.Proofs.FilterPrinter
import SqlQuery.Proofs.QuotedLiteral
import SqlQuery.Proofs.FilterRoundTrip
import SqlQuery.Proofs.ConditionReading
import SqlQuery.Proofs.FilterPredicate
import SqlQuery.Proofs.FilterMeaning
import SqlQuery.Proofs.LiteralSkeleton
import SqlQuery.Proofs.ExpressionStructure
import SqlQuery.Proofs.FilterStructure
import SqlQuery.Proofs.BuildHistory
import SqlQuery.Proofs.CountedHeight
import SqlQuery.Proofs.HeightLimit
import SqlQuery.Proofs.ClauseText
import SqlQuery.Proofs.FluentFilter
import SqlQuery.Proofs.Utf8RoundTrip
import SqlQuery.Proofs.ClosurePrinter
import SqlQuery.Proofs.ClosureScanning
import SqlQuery.Proofs.ClosureRoundTrip
import SqlQuery.Proofs.CompiledFilters
import SqlQuery.Proofs.ComputedLabels
import SqlQuery.Proofs.DescriptorComplete
import SqlQuery.Proofs.GrammaticalTrees
import SqlQuery.Proofs.MemberCondition
import SqlQuery.Proofs.StepEffects
import SqlQuery.Proofs.TextSurface
import SqlQuery.Proofs.ExpressionSurface
import SqlQuery.Proofs.InfixOperands
import SqlQuery.Proofs.FilterMerging
import SqlQuery.Proofs.DocumentReading
import SqlQuery.Proofs.WellFormedFilters
import SqlQuery.Proofs.StandingOperands
import SqlQuery.Proofs.ShownNames
import SqlQuery.Proofs.ClosureTrees
import SqlQuery.Proofs.UnquotedNames
import SqlQuery.Proofs.MembersKept
import SqlQuery.Proofs.ClosedRanges
import SqlQuery.Proofs.HoistedFields
import SqlQuery.Proofs.ScopeReferences
import SqlQuery.Proofs.LabelExpansion
import SqlQuery.Proofs.NestedTransforms
import SqlQuery.Proofs.LikeMatching
import SqlQuery.Proofs.AnchoredMatching
import SqlQuery.Proofs.InsertedRows
import SqlQuery.Proofs.FieldFragments
import SqlQuery.Proofs.ClosureLexemes
import SqlQuery.Proofs.ClosureLayout
import SqlQuery.Proofs.ClosureLiterals
import SqlQuery.Proofs.SequenceColumns
import SqlQuery.Proofs.ConstantColumns
import SqlQuery.Proofs.StatedConditions
import SqlQuery.Proofs.SingleValues
import SqlQuery.Proofs.DateReading
import SqlQuery.Proofs.IntegerLimits
import SqlQuery.Proofs.JsonRoundTrip
import SqlQuery.Proofs.OrderExtension
import SqlQuery.Proofs.ClosureStrings
import SqlQuery.Proofs.FullHeight
import SqlQuery.Proofs.SelfCheck
