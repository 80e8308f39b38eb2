import CommandGrammar.Workbench.Batch

/-!
# Sessions

In a session a user talks to the workbench through a line editor.  The editor is asked for one line
at a time, and each time it hands back a line, an interrupt, the end of the input, or a failure of
its own.

`readInput` asks for as many answers as one input takes, and leaves the others alone.  A grammar
that is not finished is continued by the next line, after a space.  An interrupt drops it.  The end
of the input hands it over as it is, and the parser will complain about it.  If there are no answers
left, the input stays unfinished and can be read on later.

A session is a state between two answers: a workbench, the beginning of an input that is not
finished yet, and whether the session is over.  `Session.proceed` takes it across an input, evaluates
it, and says what is written and what goes into the history.  `Session.hearAll` repeats this over all
answers.
-/

namespace CommandGrammar
namespace Workbench

/-- What a line editor hands back. -/
inductive Heard where
  | line (text : String)
  | interrupt
  | ended
  /-- The editor itself has failed, which ends the session. -/
  | editorFailure (message : String)
  /-- The input could not be read this time. -/
  | inputFailure (message : String)
  deriving DecidableEq, Repr

/-- The texts with which a line is asked for. -/
structure Prompts where
  first : String
  continued : String
  deriving DecidableEq, Repr

/-- The prompts of the workbench. -/
def standardPrompts : Prompts := ⟨"grammar> ", "   ...> "⟩

/-- What a session leaves behind. -/
structure Transcript where
  output : String
  errors : String
  /-- The prompts with which lines were asked for. -/
  prompts : List String
  /-- The lines that went into the history. -/
  history : List String
  events : List Event
  deriving DecidableEq, Repr

namespace Transcript

/-- Nothing has happened. -/
def empty : Transcript := ⟨"", "", [], [], []⟩

/-- What happened in two stretches, one after the other. -/
def append (a b : Transcript) : Transcript :=
  ⟨a.output ++ b.output, a.errors ++ b.errors, a.prompts ++ b.prompts, a.history ++ b.history,
    a.events ++ b.events⟩

instance : Append Transcript := ⟨append⟩

/-- Something was written. -/
def wrote (text : String) : Transcript := { empty with output := text }

/-- What happened after lines were asked for. -/
def prompted (prompts : List String) (transcript : Transcript) : Transcript :=
  { transcript with prompts := prompts ++ transcript.prompts }

end Transcript

/-! ## Reading an input -/

/-- What has become of an input. -/
inductive Intake where
  /-- More lines are asked for; what the lines so far come to, if there are any. -/
  | unfinished (begun : Option String)
  /-- The input is there, or the end of all input, and this was written while it was read. -/
  | complete (result : Except WorkbenchError (Option String)) (written : String)

/-- What becomes of an input with one more answer. -/
def takeIn (begun : Option String) : Heard → Intake
  | .line text =>
    let input :=
      match begun with
      | none => text
      | some before => before ++ " " ++ text
    if openGroups input = 0 then .complete (.ok (some input)) "" else .unfinished (some input)
  | .interrupt =>
    .complete (.ok (some "")) (if begun.isSome then "\nInput cancelled.\n" else "")
  | .ended => .complete (.ok begun) ""
  | .editorFailure message => .complete (.error (.editor message)) ""
  | .inputFailure message => .complete (.error (.unreadable message)) ""

/-- The prompt for the next line. -/
def Prompts.next (prompts : Prompts) : Option String → String
  | none => prompts.first
  | some _ => prompts.continued

/-- An input that was read from the answers of an editor. -/
structure InputReading where
  intake : Intake
  /-- The prompts with which lines were asked for. -/
  prompts : List String
  /-- The answers that were not asked for. -/
  left : List Heard

/-- An input that was read after lines were asked for. -/
def InputReading.prompted (prompts : List String) (reading : InputReading) : InputReading :=
  { reading with prompts := prompts ++ reading.prompts }

/-- Reads an input, of which there may be a beginning already: asks for one answer after the other
until the input is complete. -/
def readInput (prompts : Prompts) (begun : Option String) : List Heard → InputReading
  | [] => ⟨.unfinished begun, [], []⟩
  | heard :: rest =>
    match takeIn begun heard with
    | .complete result written => ⟨.complete result written, [prompts.next begun], rest⟩
    | .unfinished input => (readInput prompts input rest).prompted [prompts.next begun]

theorem length_left_readInput_le (prompts : Prompts) (begun : Option String) (answers : List Heard) :
    (readInput prompts begun answers).left.length ≤ answers.length := by
  fun_induction readInput prompts begun answers with
  | case1 => exact Nat.le_refl _
  | case2 => exact Nat.le_succ _
  | case3 _ _ _ _ _ ih => exact Nat.le_succ_of_le ih

/-- Reading an input asks for an answer at least. -/
theorem length_left_readInput_cons (prompts : Prompts) (begun : Option String) (heard : Heard)
    (rest : List Heard) :
    (readInput prompts begun (heard :: rest)).left.length < (heard :: rest).length := by
  rw [readInput]
  split
  · exact Nat.lt_succ_self _
  · exact Nat.lt_succ_of_le (length_left_readInput_le prompts _ rest)

/-! ## The state of a session -/

/-- A session between two answers of the editor. -/
structure Session where
  workbench : Workbench
  /-- The beginning of an input that is not finished yet. -/
  unfinished : Option String
  /-- How the session ended, if it is over. -/
  ending : Option (Except WorkbenchError Unit)

/-- What is written when a session ends as it should. -/
def farewell : String := "\nGoodbye!\n"

/-- What is written at the beginning of a session. -/
def banner : String :=
  "\x1b[1mmudgrammar\x1b[0m 0.1.0 - command grammar workbench\n" ++
    "Type :help for commands, Ctrl+D to exit.\n\n"

/-- An error as it is written in a session. -/
def errorLine (error : WorkbenchError) : String :=
  "\x1b[31merror:\x1b[0m " ++ error.message ++ "\n"

namespace Session

/-- A session that goes on with a workbench and has nothing unfinished. -/
def goOn (bench : Workbench) : Session := ⟨bench, none, none⟩

/-- A session that has come to its proper end. -/
def close (bench : Workbench) : Session := ⟨bench, none, some (.ok ())⟩

/-- What an error does to a session: a failure of the editor ends it, and any other error is written
and the session goes on. -/
def fail (bench : Workbench) (error : WorkbenchError) : Session × Transcript :=
  match error with
  | .editor _ => (⟨bench, none, some (.error error)⟩, .empty)
  | _ => (goOn bench, { Transcript.empty with errors := errorLine error })

/-- Evaluates a complete input. -/
def submit (bench : Workbench) (input : String) : Session × Transcript :=
  if isBlankLine input then (goOn bench, .empty)
  else
    let evaluation := bench.eval input
    let said : Transcript := { Transcript.empty with
      history := [input], events := evaluation.events }
    match evaluation.result with
    | .ok (.output text) =>
      (goOn evaluation.workbench, { said with output := ownLine text })
    | .ok .quit => (close evaluation.workbench, { said with output := farewell })
    | .error error =>
      let (session, reported) := fail evaluation.workbench error
      (session, said ++ reported)

/-- Takes a session across an input: a complete one is evaluated, and the end of all input closes the
session. -/
def proceed (session : Session) : Intake → Session × Transcript
  | .unfinished begun => ({ session with unfinished := begun }, .empty)
  | .complete result written =>
    let (next, said) :=
      match result with
      | .ok (some input) => submit session.workbench input
      | .ok none => (close session.workbench, .wrote farewell)
      | .error error => fail session.workbench error
    (next, .wrote written ++ said)

/-- Takes a session that is not over across one answer of the editor. -/
def respond (session : Session) (heard : Heard) : Session × Transcript :=
  session.proceed (takeIn session.unfinished heard)

/-- Reads one input after the other and takes the session across it, until there are no answers left.
A session that is over asks for nothing more. -/
def hearAll (prompts : Prompts) (session : Session) : List Heard → Session × Transcript
  | [] => (session, .empty)
  | heard :: rest =>
    match session.ending with
    | some _ => (session, .empty)
    | none =>
      let reading := readInput prompts session.unfinished (heard :: rest)
      let (next, said) := session.proceed reading.intake
      let (last, others) := next.hearAll prompts reading.left
      (last, said.prompted reading.prompts ++ others)
termination_by answers => answers.length
decreasing_by exact length_left_readInput_cons _ _ _ _

end Session

/-- The result of a whole session, what it leaves behind, and the workbench to go on with. -/
structure SessionRun where
  result : Except WorkbenchError Unit
  transcript : Transcript
  workbench : Workbench

/-- Runs a session over the answers of an editor, after which the input has ended.  The end may have
to be heard twice: an unfinished grammar is handed over the first time. -/
def runSession (bench : Workbench) (showBanner : Bool) (prompts : Prompts) (answers : List Heard) :
    SessionRun :=
  let (session, transcript) :=
    (Session.goOn bench).hearAll prompts (answers ++ [.ended, .ended])
  let opening := if showBanner then Transcript.wrote banner else .empty
  ⟨session.ending.getD (.ok ()), opening ++ transcript, session.workbench⟩

end Workbench
end CommandGrammar
