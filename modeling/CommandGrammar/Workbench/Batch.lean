import CommandGrammar.Workbench.Basic

/-!
# Batches

A batch is a stream of bytes that is evaluated line by line.  A line ends at a line feed, and one
carriage return before the line feed is not part of it; what follows the last line feed is a line if
there is anything.  Blank lines are passed over.  What a line answers is written on a line of its
own, an error with a mark before it, and the errors are counted.  The batch ends early at a line
that asks to quit, or at a line that is not UTF-8.
-/

namespace CommandGrammar
namespace Workbench

/-- Drops a carriage return at the end. -/
def dropReturn (bytes : List UInt8) : List UInt8 :=
  if bytes.getLast? = some 13 then bytes.dropLast else bytes

/-- Cuts bytes into lines without their ends; `line` holds the bytes of the current line, last one
first. -/
def linesFrom (line : List UInt8) : List UInt8 → List (List UInt8)
  | [] => if line.isEmpty then [] else [line.reverse]
  | byte :: rest =>
    if byte = 10 then dropReturn line.reverse :: linesFrom [] rest
    else linesFrom (byte :: line) rest

/-- The lines of a stream of bytes. -/
def byteLines (bytes : List UInt8) : List (List UInt8) := linesFrom [] bytes

/-- The text that bytes encode in UTF-8, if they do. -/
def decode? (bytes : List UInt8) : Option String := String.fromUTF8? bytes.toByteArray

/-- The failure of bytes that are not UTF-8. -/
def notText : String := "stream did not contain valid UTF-8"

/-- Whether a line has nothing but blanks in it. -/
def isBlankLine (line : String) : Bool := (Text.trim line.toList).isEmpty

/-- A text on a line of its own; the empty text takes none. -/
def ownLine (text : String) : String := if text.isEmpty then "" else text ++ "\n"

/-- The result of a batch: the number of lines that failed, or why it could not go on; what was
written; the workbench to go on with; and what happened on the way. -/
structure BatchRun where
  result : Except WorkbenchError Nat
  output : String
  workbench : Workbench
  events : List Event

namespace BatchRun

/-- A run that ends here. -/
def done (bench : Workbench) : BatchRun := ⟨.ok 0, "", bench, []⟩

/-- Puts what one line has done before the run of the lines after it. -/
def after (failed : Nat) (output : String) (events : List Event) (rest : BatchRun) : BatchRun :=
  ⟨rest.result.map (failed + ·), output ++ rest.output, rest.workbench, events ++ rest.events⟩

end BatchRun

/-- Evaluates lines one after the other. -/
def runLines (bench : Workbench) : List (List UInt8) → BatchRun
  | [] => .done bench
  | bytes :: rest =>
    match decode? bytes with
    | none => ⟨.error (.unreadable notText), "", bench, []⟩
    | some line =>
      if isBlankLine line then bench.runLines rest
      else
        let evaluation := bench.eval line
        match evaluation.result with
        | .ok (.output text) =>
          .after 0 (ownLine text) evaluation.events (evaluation.workbench.runLines rest)
        | .ok .quit => .after 0 "" evaluation.events (.done evaluation.workbench)
        | .error error =>
          .after 1 ("error: " ++ error.message ++ "\n") evaluation.events
            (evaluation.workbench.runLines rest)

/-- Evaluates a stream of bytes line by line. -/
def runBatch (bench : Workbench) (bytes : List UInt8) : BatchRun := bench.runLines (byteLines bytes)

end Workbench
end CommandGrammar
