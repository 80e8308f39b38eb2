import CommandGrammar.Automaton.Basic
import CommandGrammar.Automaton.Builder
import CommandGrammar.Automaton.Exit
import CommandGrammar.Automaton.Label
import CommandGrammar.Automaton.Printer
import CommandGrammar.CommandLine
import CommandGrammar.Event
import CommandGrammar.Exchange.Codec
import CommandGrammar.Exchange.Value
import CommandGrammar.Grammar.Automaton
import CommandGrammar.Grammar.Basic
import CommandGrammar.Grammar.Lexeme
import CommandGrammar.Grammar.Parser
import CommandGrammar.Grammar.Printer
import CommandGrammar.Interpretation
import CommandGrammar.Line
import CommandGrammar.Main
import CommandGrammar.Matcher
import CommandGrammar.Matching.Acceptance
import CommandGrammar.Matching.Failure
import CommandGrammar.Matching.Frontier
import CommandGrammar.Matching.Options
import CommandGrammar.Matching.Path
import CommandGrammar.Matching.Step
import CommandGrammar.OrderedSet
import CommandGrammar.Proofs.Automaton.Operations
import CommandGrammar.Proofs.Automaton.Trace
import CommandGrammar.Proofs.FirstOccurrences
import CommandGrammar.Proofs.Grammar.Canonical
import CommandGrammar.Proofs.Grammar.Cutting
import CommandGrammar.Proofs.Grammar.Drafting
import CommandGrammar.Proofs.Grammar.FirstOffence
import CommandGrammar.Proofs.Grammar.Meaning
import CommandGrammar.Proofs.Grammar.RoundTrip
import CommandGrammar.Proofs.Grammar.Spelling
import CommandGrammar.Proofs.Language
import CommandGrammar.Proofs.Matching.Agreement
import CommandGrammar.Proofs.Matching.FreePath
import CommandGrammar.Proofs.Matching.Frontier
import CommandGrammar.Proofs.Matching.Limit
import CommandGrammar.Proofs.Matching.Merging
import CommandGrammar.Proofs.Matching.Readings
import CommandGrammar.Proofs.Matching.Recognition
import CommandGrammar.Proofs.Reachability
import CommandGrammar.Search
import CommandGrammar.Text.Blank
import CommandGrammar.Text.CodePoints
import CommandGrammar.Text.Letter
import CommandGrammar.Text.Outline
import CommandGrammar.Text.Printable
import CommandGrammar.Text.Quoted
import CommandGrammar.Workbench.Basic
import CommandGrammar.Workbench.Batch
import CommandGrammar.Workbench.Command
import CommandGrammar.Workbench.Session
import CommandGrammar.Proofs.Automaton.Coaccessible
import CommandGrammar.Proofs.Grammar.Derivation
import CommandGrammar.Proofs.Matching.FailurePoint
import CommandGrammar.Proofs.Grammar.Parsing
import CommandGrammar.Proofs.Grammar.Folding
import CommandGrammar.Proofs.Matching.Narrowing
import CommandGrammar.Proofs.Line.Scanning
import CommandGrammar.Proofs.Workbench.ActiveGrammar
import CommandGrammar.Proofs.Workbench.ByteLines
import CommandGrammar.Proofs.Workbench.Inputs
import CommandGrammar.Proofs.Workbench.Dialogue
import CommandGrammar.Proofs.Matching.Conservation
import CommandGrammar.Proofs.Matching.Backtracking
import CommandGrammar.Proofs.Matching.Expectations
import CommandGrammar.Proofs.Automaton.Faults
import CommandGrammar.Proofs.Grammar.Building
import CommandGrammar.Proofs.Automaton.Due
import CommandGrammar.Proofs.Matching.Closure
import CommandGrammar.Proofs.Matching.EndMark
import CommandGrammar.Proofs.Matching.Cuts
import CommandGrammar.Proofs.Line.Quotes
import CommandGrammar.Proofs.Workbench.Consecutive
import CommandGrammar.Proofs.Workbench.Continuation
import CommandGrammar.Proofs.Matching.Laziness
import CommandGrammar.Proofs.Workbench.CommandName
import CommandGrammar.Proofs.Grammar.Respacing
import CommandGrammar.Proofs.Workbench.Joining
import CommandGrammar.Proofs.Grammar.Letters
import CommandGrammar.Proofs.Workbench.Reentry
import CommandGrammar.Proofs.Matching.EventLog
import CommandGrammar.Proofs.Automaton.Emissions
import CommandGrammar.Proofs.Matching.StepSearch
import CommandGrammar.Proofs.Automaton.Trim
import CommandGrammar.Proofs.Grammar.Partition
