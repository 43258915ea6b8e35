import SlrKit.Automaton.Graph
import SlrKit.Automaton.Item
import SlrKit.Automaton.Printer
import SlrKit.Automaton.Scan
import SlrKit.Compiled
import SlrKit.Declarations
import SlrKit.Fault
import SlrKit.Grammar.Basic
import SlrKit.Grammar.Compile
import SlrKit.Grammar.Error
import SlrKit.Grammar.First
import SlrKit.Grammar.Follow
import SlrKit.Grammar.Index
import SlrKit.Grammar.IndexSet
import SlrKit.Grammar.Precedence
import SlrKit.Lexer.Definition
import SlrKit.Lexer.Register
import SlrKit.Lexer.Run
import SlrKit.Log
import SlrKit.Parser.Basic
import SlrKit.Parser.Run
import SlrKit.Parser.Step
import SlrKit.Pattern.Basic
import SlrKit.Pattern.CaseFold
import SlrKit.Pattern.CharSet
import SlrKit.Pattern.Library
import SlrKit.Pattern.Program
import SlrKit.Pattern.Reader
import SlrKit.Pattern.WordCharacter
import SlrKit.Regex
import SlrKit.RuleBook
import SlrKit.RuleBook.Checked
import SlrKit.RuleText
import SlrKit.RuleText.Offsets
import SlrKit.Table.Basic
import SlrKit.Table.Build
import SlrKit.Table.Fill
import SlrKit.Text.Blank
import SlrKit.Text.Bytes
import SlrKit.Text.LineIndex
import SlrKit.Text.Quoted
import SlrKit.Text.Span
import SlrKit.Token
import SlrKit.Proofs.Automaton.Closure
import SlrKit.Proofs.Automaton.Exploration
import SlrKit.Proofs.Grammar.DerivationTree
import SlrKit.Proofs.Grammar.SoundBook
import SlrKit.Proofs.Grammar.WellFormed
import SlrKit.Proofs.Automaton.Canonical
import SlrKit.Proofs.Automaton.ItemAutomaton
import SlrKit.Proofs.Grammar.FirstSets
import SlrKit.Proofs.Grammar.FollowSets
import SlrKit.Proofs.Automaton.Path
import SlrKit.Proofs.Parser.Reach
import SlrKit.Proofs.Parser.Steps
import SlrKit.Proofs.Parser.Safety
import SlrKit.Proofs.Parser.Soundness
import SlrKit.Proofs.Parser.Completeness
import SlrKit.Proofs.Grammar.Levels
import SlrKit.Proofs.Table.Entries
import SlrKit.Proofs.Parser.Salvage
import SlrKit.Proofs.Parser.Watched
import SlrKit.Proofs.Parser.Progress
import SlrKit.Proofs.Grammar.OperatorGrammar
import SlrKit.Proofs.Grammar.Grouping
import SlrKit.Proofs.Table.OperatorTable
import SlrKit.Proofs.Parser.BuiltTrees
import SlrKit.Proofs.Parser.OperatorRuns
import SlrKit.Proofs.Parser.FirstError
import SlrKit.Proofs.Grammar.SententialForm
import SlrKit.Proofs.Automaton.ViablePrefix
import SlrKit.Proofs.Parser.Replay
import SlrKit.Proofs.Parser.EarliestError
import SlrKit.Proofs.Grammar.Alternatives
import SlrKit.Proofs.Parser.ViableRuns
import SlrKit.Proofs.Parser.Halting
import SlrKit.Proofs.Parser.Calls
import SlrKit.Proofs.Lexer.Consumption
import SlrKit.Proofs.RuleText.Layout
import SlrKit.Proofs.RuleText.Words
import SlrKit.Proofs.RuleText.Reading
import SlrKit.Proofs.RuleText.Entry
import SlrKit.Proofs.Grammar.Ranks
import SlrKit.Proofs.Grammar.Terminals
import SlrKit.Proofs.Grammar.RuleListing
import SlrKit.Proofs.Grammar.Consistency
import SlrKit.Proofs.Grammar.Indexing
import SlrKit.Proofs.Grammar.Beginnings
import SlrKit.Proofs.Grammar.Continuations
import SlrKit.Proofs.Text.Places
import SlrKit.Proofs.Lexer.Positions
import SlrKit.Proofs.Lexer.LineRewrites
import SlrKit.Proofs.Distinct
import SlrKit.Proofs.Table.ConflictReports
import SlrKit.Proofs.Table.Filling
import SlrKit.Proofs.Table.Acceptance
import SlrKit.Proofs.Text.Pieces
import SlrKit.Proofs.Pattern.Placement
import SlrKit.Proofs.Pattern.Settling
import SlrKit.Proofs.Pattern.Hosting
import SlrKit.Proofs.Pattern.Advancing
import SlrKit.Proofs.Pattern.Renumbering
import SlrKit.Proofs.Pattern.Alternation
import SlrKit.Proofs.Pattern.Locality
import SlrKit.Proofs.Pattern.Edits
import SlrKit.Proofs.Pattern.Nesting
import SlrKit.Proofs.Lexer.Priority
import SlrKit.Proofs.Lexer.Combined
import SlrKit.Proofs.Text.Lines
import SlrKit.Proofs.RuleText.Places
import SlrKit.Proofs.RuleText.Offsets
import SlrKit.Proofs.RuleText.Spans
import SlrKit.Proofs.Grammar.CheckedBook
import SlrKit.Proofs.Grammar.WrittenPlaces
import SlrKit.Proofs.Pattern.Clashing
import SlrKit.Proofs.Regex.Assumptions
import SlrKit.Proofs.Pattern.Choices
import SlrKit.Proofs.Pattern.Documented
import SlrKit.Proofs.Pattern.Nonempty
import SlrKit.Proofs.Lexer.DuplicateNames
import SlrKit.Proofs.Lexer.BuildErrors
import SlrKit.Proofs.Automaton.Scanning
