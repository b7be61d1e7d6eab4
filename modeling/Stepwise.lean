import Stepwise.OrderedSet
import Stepwise.Text
import Stepwise.Table
import Stepwise.Automaton
import Stepwise.Diagnostic
import Stepwise.Snapshot
import Stepwise.History
import Stepwise.Catalog
import Stepwise.TransitionText
import Stepwise.Description
import Stepwise.Report
import Stepwise.Wire
import Stepwise.Random.Wyrand
import Stepwise.Random.Generator
import Stepwise.CommandLine.Execution
import Stepwise.Main
import Stepwise.Proofs.FirstPlaces
import Stepwise.Proofs.Lookup
import Stepwise.Proofs.Language
import Stepwise.Proofs.Paths
import Stepwise.Proofs.Validation
import Stepwise.Proofs.Determinism
import Stepwise.Proofs.Operations
import Stepwise.Proofs.Trimming
import Stepwise.Proofs.Lines
import Stepwise.Proofs.Nesting
import Stepwise.Proofs.LineGrammar
import Stepwise.Proofs.StateTokens
import Stepwise.Proofs.Rewriting
import Stepwise.Proofs.Decoding
import Stepwise.Proofs.InnerArrows
import Stepwise.Proofs.PlainLines
import Stepwise.Proofs.EditorAgreement
import Stepwise.Proofs.LineSpelling
import Stepwise.Proofs.PatternSearch
import Stepwise.Proofs.LinePattern
import Stepwise.Proofs.Collecting
import Stepwise.Proofs.Formatting
import Stepwise.Proofs.Sessions
import Stepwise.Proofs.StepCount
import Stepwise.Proofs.Drivers
import Stepwise.Proofs.SameRelation
import Stepwise.Proofs.JsonText
import Stepwise.Proofs.Exchange
import Stepwise.Proofs.Accumulating
import Stepwise.Proofs.Problems
import Stepwise.Proofs.Reporting
import Stepwise.Proofs.Growing
import Stepwise.Proofs.RandomDfas
import Stepwise.Proofs.NormalForm
import Stepwise.Proofs.Widening
import Stepwise.Proofs.Composition
import Stepwise.Proofs.LineByLine
import Stepwise.Proofs.WellNested
import Stepwise.Proofs.DecodingErrors
import Stepwise.Proofs.SubsetSpellings
import Stepwise.Proofs.LeftLines
import Stepwise.Proofs.WarnedLines
import Stepwise.Proofs.SymbolTexts
import Stepwise.Proofs.SpelledSymbols
import Stepwise.Proofs.CommaLists
import Stepwise.Proofs.BalancedParts
import Stepwise.Proofs.DefaultInitial
import Stepwise.Proofs.CatalogLanguages
import Stepwise.Proofs.LastTransition
import Stepwise.Proofs.BuilderCalls
import Stepwise.Proofs.FirstComma
import Stepwise.Proofs.InputParts
import Stepwise.Proofs.StyledText
import Stepwise.Proofs.ColoredTables
