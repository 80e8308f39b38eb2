import CommandGrammar.Automaton.Printer
import CommandGrammar.Matcher
import CommandGrammar.Workbench.Command

/-!
# The workbench

A workbench is where grammars are tried out.  It holds at most one grammar, the active one, and
evaluates one line at a time: a command, or a line to be read by the active grammar.  An evaluation
answers with a text, asks to quit or fails, and in each case there is a workbench to go on with.

Only a `:grammar` command that is given a grammar changes the active grammar, and only when that
grammar can be read.
-/

namespace CommandGrammar

/-- Why the workbench could not do as it was told. -/
inductive WorkbenchError where
  /-- The grammar, the line, or the one by the other could not be read. -/
  | language (error : LineError)
  | noGrammar
  | unknownCommand (name : String)
  | usage (text : String)
  /-- The line editor has failed. -/
  | editor (message : String)
  /-- The input could not be read. -/
  | unreadable (message : String)
  deriving DecidableEq

/-- What a user is told. -/
def WorkbenchError.message : WorkbenchError → String
  | .language error => error.message
  | .noGrammar => "no grammar set; use :grammar <grammar> first"
  | .unknownCommand name => "unknown command: " ++ name ++ " (try :help)"
  | .usage text => "usage: " ++ text
  | .editor message => "line editor error: " ++ message
  | .unreadable message => message

/-- The failure of a source that is not a grammar. -/
abbrev WorkbenchError.ofSource (error : Grammar.SourceError) : WorkbenchError :=
  .language (.source error)

/-- The failure of a line that has no readings. -/
abbrev WorkbenchError.ofMatch (error : MatchError) : WorkbenchError := .language (.noReading error)

/-- The failure of a line with an open quote. -/
abbrev WorkbenchError.ofQuote (quote : OpenQuote) : WorkbenchError := .language (.openQuote quote)

/-- A place for trying out grammars. -/
structure Workbench where
  /-- The active grammar. -/
  matcher : Option Matcher
  /-- The options that a new grammar gets. -/
  options : MatchOptions
  quotes : QuoteMode

namespace Workbench

/-- What an evaluation answers with. -/
inductive Response where
  | output (text : String)
  | quit
  deriving DecidableEq, Repr

/-- The result of an evaluation, the workbench to go on with, and what happened on the way. -/
structure Evaluation where
  result : Except WorkbenchError Response
  workbench : Workbench
  events : List Event

/-- A workbench without a grammar. -/
def new (options : MatchOptions) (quotes : QuoteMode) : Workbench := ⟨none, options, quotes⟩

/-- An evaluation that leaves the workbench as it is. -/
def unchanged (bench : Workbench) (result : Except WorkbenchError Response) : Evaluation :=
  ⟨result, bench, []⟩

/-- An evaluation that fails and leaves the workbench as it is. -/
def refuse (bench : Workbench) (error : WorkbenchError) : Evaluation := bench.unchanged (.error error)

/-- An evaluation that answers with a text and leaves the workbench as it is. -/
def answer (bench : Workbench) (text : String) : Evaluation := bench.unchanged (.ok (.output text))

/-- The workbench with another active grammar. -/
def activate (bench : Workbench) (matcher : Matcher) : Workbench :=
  { bench with matcher := some matcher }

/-- Reads a grammar and makes it the active one. -/
def setGrammar (bench : Workbench) (source : String) : Except WorkbenchError (Workbench × Matcher) :=
  match Matcher.compile bench.options source with
  | .error error => .error (.ofSource error)
  | .ok matcher => .ok (bench.activate matcher, matcher)

/-- Puts a question to the active grammar and keeps what the matcher learns from it. -/
def ask {α : Type} (bench : Workbench) (question : Matcher → Matcher.Answer α)
    (result : α → Except WorkbenchError Response) : Evaluation :=
  match bench.matcher with
  | none => bench.refuse .noGrammar
  | some matcher =>
    let answer := question matcher
    ⟨result answer.value, bench.activate answer.matcher, answer.events⟩

/-- Numbers the readings of a line, one to a line. -/
def numbered (number : Nat) : List Interpretation → List String
  | [] => []
  | reading :: rest => (toString number ++ ". " ++ reading.shown) :: numbered (number + 1) rest

/-- The readings of a line as they are shown to a user. -/
def listing (readings : List Interpretation) : String := "\n".intercalate (numbered 1 readings)

/-- Reads a line by the active grammar, and lists every reading. -/
def interpret (bench : Workbench) (line : String) : Evaluation :=
  match bench.matcher with
  | none => bench.refuse .noGrammar
  | some _ =>
    match Line.tokenize bench.quotes line with
    | .error quote => bench.refuse (.ofQuote quote)
    | .ok tokens =>
      bench.ask (·.interpret tokens) fun
        | .ok readings => .ok (.output (listing readings))
        | .error error => .error (.ofMatch error)

/-- Does what a command asks for. -/
def perform (bench : Workbench) : Command → Evaluation
  | .showGrammar =>
    match bench.matcher with
    | none => bench.refuse .noGrammar
    | some matcher => bench.answer matcher.shown
  | .setGrammar source =>
    match bench.setGrammar source with
    | .error error => bench.refuse error
    | .ok (changed, matcher) =>
      ⟨.ok (.output ("grammar set: " ++ matcher.shown)), changed, [.grammarChanged matcher.shown]⟩
  | .showTree =>
    match bench.matcher with
    | none => bench.refuse .noGrammar
    | some matcher => bench.answer (matcher.grammar.outline.indented 0)
  | .showTable =>
    bench.ask Matcher.automaton fun automaton =>
      .ok (.output (toString automaton.size ++ " states\n" ++ automaton.shown))
  | .showTokens line =>
    if line.isEmpty then bench.refuse (.usage ":tokens <line>")
    else
      match Line.tokenize bench.quotes line with
      | .error quote => bench.refuse (.ofQuote quote)
      | .ok tokens => bench.answer (Text.quotedList tokens)
  | .accepts line =>
    match Line.tokenize bench.quotes line with
    | .error quote => bench.refuse (.ofQuote quote)
    | .ok tokens =>
      bench.ask (·.accepts tokens) fun accepted =>
        .ok (.output (if accepted then "true" else "false"))
  | .help => bench.answer helpText
  | .quit => bench.unchanged (.ok .quit)
  | .unknown name => bench.refuse (.unknownCommand (":" ++ name))

/-- Evaluates one line. -/
def eval (bench : Workbench) (line : String) : Evaluation :=
  match Input.ofLine line with
  | .line text => bench.interpret text
  | .command name argument =>
    let evaluation := bench.perform (.ofName name argument)
    { evaluation with events := .commandEntered name :: evaluation.events }

end Workbench

end CommandGrammar
