import CommandGrammar.Grammar.Automaton
import CommandGrammar.Grammar.Parser
import CommandGrammar.Grammar.Printer
import CommandGrammar.Line
import CommandGrammar.Matching.Acceptance
import CommandGrammar.Matching.Frontier

/-!
# Matchers

A matcher is a grammar that is ready for use: its source, its tree, the options it matches with, and
its automaton.  The automaton is built when something first asks for it and kept from then on, so
every question that is put to a matcher answers with the matcher to go on with (`Matcher.Answer`).
-/

namespace CommandGrammar

/-- A grammar that is ready for use. -/
structure Matcher where
  source : String
  grammar : Grammar
  options : MatchOptions
  /-- The automaton, once it has been built. -/
  built : Option Automaton

namespace Matcher

/-- Reads a grammar and makes it ready; the automaton is not built yet. -/
def compile (options : MatchOptions) (source : String) : Except Grammar.SourceError Matcher :=
  (Grammar.parse source).map fun grammar => ⟨source, grammar, options, none⟩

/-- The grammar of a matcher as it is shown to a user. -/
def shown (matcher : Matcher) : String := matcher.grammar.toSource

/-- The answer to a question, the matcher to go on with, and what happened on the way. -/
structure Answer (α : Type) where
  value : α
  matcher : Matcher
  events : List Event

/-- Puts a question to the automaton, which is built first if it has not been built yet. -/
def ask {α : Type} (matcher : Matcher) (question : Automaton → α × List Event) : Answer α :=
  match matcher.built with
  | some automaton =>
    let (value, events) := question automaton
    ⟨value, matcher, events⟩
  | none =>
    let automaton := matcher.grammar.automaton
    let (value, events) := question automaton
    ⟨value, { matcher with built := some automaton },
      .automatonBuilt matcher.source automaton.size :: events⟩

/-- The automaton itself. -/
def automaton (matcher : Matcher) : Answer Automaton :=
  matcher.ask fun automaton => (automaton, [])

/-- Whether a list of tokens is accepted. -/
def accepts (matcher : Matcher) (tokens : List String) : Answer Bool :=
  matcher.ask fun automaton => (automaton.accepts tokens, [])

/-- All readings of a list of tokens. -/
def interpret (matcher : Matcher) (tokens : List String) :
    Answer (Except MatchError (List Interpretation)) :=
  matcher.ask fun automaton =>
    let outcome := automaton.interpretWithEvents matcher.options tokens
    (outcome.result, outcome.events)

/-- Whether a line is accepted, open quotes being forgiven. -/
def acceptsLine (matcher : Matcher) (line : String) : Answer Bool :=
  matcher.accepts (Line.tokens line)

/-- All readings of a line, open quotes being forgiven. -/
def interpretLine (matcher : Matcher) (line : String) :
    Answer (Except MatchError (List Interpretation)) :=
  matcher.interpret (Line.tokens line)

end Matcher

/-! ## From a line and a grammar to readings -/

/-- Why a line and a grammar have no readings together. -/
inductive LineError where
  | source (error : Grammar.SourceError)
  | noReading (error : MatchError)
  | openQuote (quote : OpenQuote)
  deriving DecidableEq

/-- What a user is told. -/
def LineError.message : LineError → String
  | .source error => error.message
  | .noReading error => error.message
  | .openQuote quote => quote.message

/-- Cuts a line into tokens, reads a grammar and matches the one by the other.  The line is looked
at before the grammar. -/
def interpretOnce (quotes : QuoteMode) (options : MatchOptions) (source line : String) :
    Except LineError (List Interpretation) × List Event :=
  match Line.tokenize quotes line with
  | .error quote => (.error (.openQuote quote), [])
  | .ok tokens =>
    match Matcher.compile options source with
    | .error error => (.error (.source error), [])
    | .ok matcher =>
      let answer := matcher.interpret tokens
      (answer.value.mapError .noReading, answer.events)

end CommandGrammar
