import CommandGrammar.Workbench.Session

/-!
# The command line

The program takes its options from its arguments and its lines from its standard input, either as a
batch or as a session.  In a session without a terminal the line editor reads the input as it comes:
a line ends at a line feed, and a grammar that is not finished is read on, line ends included, until
it is.  If the input ends before the grammar does, the grammar is dropped.

`CommandLine.run` says what the program writes and with which code it exits; reading and writing
themselves are left to the caller.
-/

namespace CommandGrammar
namespace CommandLine

/-- The options of the program. -/
structure Options where
  grammar : Option String
  batch : Bool
  strictQuotes : Bool
  maxPaths : Option Nat
  help : Bool
  version : Bool
  deriving DecidableEq, Repr

/-- No options are given. -/
def Options.initial : Options := ⟨.none, false, false, .none, false, false⟩

/-- What can be wrong with the arguments. -/
inductive ArgumentError where
  | unknownOption (argument : String)
  | missingValue (option : String)
  | invalidMaxPaths (value : String)
  deriving DecidableEq, Repr

/-- What a user is told. -/
def ArgumentError.message : ArgumentError → String
  | .unknownOption argument => "unknown option: " ++ argument
  | .missingValue option => option ++ " requires a value"
  | .invalidMaxPaths value => "invalid --max-paths value: " ++ value

/-- The value of a decimal digit. -/
def digit? (c : Char) : Option Nat :=
  if '0' ≤ c ∧ c ≤ '9' then some (c.toNat - '0'.toNat) else none

/-- The value of decimal digits that follow digits of the value given. -/
def digitsValue? (value : Nat) : List Char → Option Nat
  | [] => some value
  | c :: rest =>
    match digit? c with
    | some digit => digitsValue? (10 * value + digit) rest
    | none => none

/-- Reads a number: decimal digits, at least one, with at most one plus sign before them, and a
value that fits into 64 bits. -/
def number? (text : String) : Option Nat :=
  let digits :=
    match text.toList with
    | '+' :: digits => digits
    | digits => digits
  if digits.isEmpty then none
  else (digitsValue? 0 digits).filter (· < UInt64.size)

/-- Reads arguments from left to right; a later one overrides an earlier one. -/
def readArguments (options : Options) : List String → Except ArgumentError Options
  | [] => .ok options
  | "-h" :: rest | "--help" :: rest => readArguments { options with help := true } rest
  | "-V" :: rest | "--version" :: rest => readArguments { options with version := true } rest
  | "-b" :: rest | "--batch" :: rest => readArguments { options with batch := true } rest
  | "--strict-quotes" :: rest => readArguments { options with strictQuotes := true } rest
  | ["-g"] | ["--grammar"] => .error (.missingValue "--grammar")
  | "-g" :: grammar :: rest | "--grammar" :: grammar :: rest =>
    readArguments { options with grammar := some grammar } rest
  | ["--max-paths"] => .error (.missingValue "--max-paths")
  | "--max-paths" :: value :: rest =>
    match number? value with
    | some limit => readArguments { options with maxPaths := some limit } rest
    | .none => .error (.invalidMaxPaths value)
  | argument :: _ => .error (.unknownOption argument)

/-- What the program writes and with which code it exits. -/
structure Outcome where
  code : UInt32
  output : String
  errors : String
  deriving DecidableEq, Repr

/-- What the help option shows. -/
def helpText : String := "\n".intercalate [
  "\x1b[1mmudgrammar\x1b[0m - Command grammar workbench",
  "",
  "\x1b[1mUSAGE:\x1b[0m",
  "    mudgrammar [OPTIONS]",
  "",
  "\x1b[1mOPTIONS:\x1b[0m",
  "    -h, --help             Print help information",
  "    -V, --version          Print version information",
  "    -g, --grammar GRAMMAR  Start with GRAMMAR active",
  "    -b, --batch            Evaluate lines from stdin and exit (no REPL)",
  "    --strict-quotes        Reject input with an unterminated quote",
  "    --max-paths N          Fail matching past N live interpretation paths",
  "",
  "\x1b[1mEXAMPLES:\x1b[0m",
  "    mudgrammar -g 'give (ITEM) to (CHARACTER|ENTITY)'",
  "    echo 'take \"rusty sword\"' | mudgrammar -b -g 'take (ITEM)'",
  "",
  "\x1b[1mREPL COMMANDS:\x1b[0m",
  "    :grammar <grammar>   Compile and activate a grammar",
  "    :ast, :nfa           Show the grammar tree or automaton",
  "    :tokens <line>       Show how a line is tokenized",
  "    <line>               Show every interpretation of a line",
  "    Ctrl+D               Exit",
  "    Ctrl+C               Cancel current input",
  "",
  "Set RUST_LOG=debug to see matcher diagnostics.",
  ""]

/-- What the version option shows. -/
def versionText : String := "mudgrammar 0.1.0\n"

/-- An error that ends the program. -/
def fatal (message : String) : Outcome := ⟨1, "", "\x1b[31mError: " ++ message ++ "\x1b[0m\n"⟩

/-! ## Reading lines without a terminal -/

/-- The bytes up to and with the first line feed, and the bytes after it. -/
def splitLine : List UInt8 → List UInt8 × List UInt8
  | [] => ([], [])
  | byte :: rest =>
    if byte = 10 then ([byte], rest)
    else
      let (line, others) := splitLine rest
      (byte :: line, others)

theorem length_splitLine_cons (byte : UInt8) (rest : List UInt8) :
    (splitLine (byte :: rest)).2.length < (byte :: rest).length := by
  induction rest generalizing byte with
  | nil => unfold splitLine; split <;> simp [splitLine]
  | cons next rest ih =>
    unfold splitLine
    split
    · simp
    · have := ih next
      simp only [List.length_cons] at this ⊢
      omega

/-- A line without its end. -/
def withoutEnd (line : String) : String :=
  match line.toList.reverse with
  | '\n' :: '\r' :: rest => String.ofList rest.reverse
  | '\n' :: rest => String.ofList rest.reverse
  | _ => line

/-- What a line editor without a terminal hands back, one piece of input after the other; `before`
is the beginning of a grammar that is not finished, with its line ends. -/
def heardFrom (before : String) : List UInt8 → List Workbench.Heard
  | [] => [.ended]
  | byte :: rest =>
    let split := splitLine (byte :: rest)
    match Workbench.decode? split.1 with
    | none => [.editorFailure Workbench.notText]
    | some line =>
      let text := before ++ line
      let input := withoutEnd text
      if Workbench.openGroups input = 0 then .line input :: heardFrom "" split.2
      else heardFrom text split.2
termination_by bytes => bytes.length
decreasing_by all_goals exact length_splitLine_cons byte rest

/-! ## Running -/

/-- The options that grammars are matched with. -/
def Options.matching (options : Options) : MatchOptions :=
  match options.maxPaths with
  | some limit => MatchOptions.standard.withMaxLivePaths limit
  | .none => .standard

/-- What becomes of open quotes. -/
def Options.quotes (options : Options) : QuoteMode :=
  if options.strictQuotes then .strict else .lenient

/-- The workbench to begin with. -/
def Options.workbench (options : Options) : Except WorkbenchError Workbench :=
  let bench := Workbench.new options.matching options.quotes
  match options.grammar with
  | .none => .ok bench
  | some source => (bench.setGrammar source).map Prod.fst

/-- Evaluates the input as a batch; the code tells whether a line failed. -/
def runBatch (bench : Workbench) (input : List UInt8) : Outcome :=
  let run := bench.runBatch input
  match run.result with
  | .ok failed => ⟨if failed = 0 then 0 else 1, run.output, ""⟩
  | .error error => { fatal error.message with output := run.output }

/-- Evaluates the input as a session. -/
def runSession (bench : Workbench) (showBanner : Bool) (input : List UInt8) : Outcome :=
  let run := bench.runSession showBanner Workbench.standardPrompts (heardFrom "" input)
  match run.result with
  | .ok () => ⟨0, run.transcript.output, run.transcript.errors⟩
  | .error error =>
    let last := fatal error.message
    ⟨last.code, run.transcript.output, run.transcript.errors ++ last.errors⟩

/-- Runs the program on its arguments and its input. -/
def run (arguments : List String) (input : List UInt8) : Outcome :=
  match readArguments .initial arguments with
  | .error error => fatal error.message
  | .ok options =>
    if options.help then ⟨0, helpText, ""⟩
    else if options.version then ⟨0, versionText, ""⟩
    else
      match options.workbench with
      | .error error => fatal error.message
      | .ok bench =>
        if options.batch then runBatch bench input
        else runSession bench options.grammar.isNone input

end CommandLine
end CommandGrammar
