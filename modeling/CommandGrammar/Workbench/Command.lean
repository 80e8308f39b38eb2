import CommandGrammar.Text.Blank

/-!
# Commands of the workbench

A line that begins with a colon is a command; what follows the colon up to the first blank is its
name, and what is left, without the blanks around it, is its argument.  Every other line is a line
to be read by the active grammar.

A `:grammar` command may go on over several lines.  It is complete when every parenthesis that was
opened in it has been closed (`openGroups`).
-/

namespace CommandGrammar
namespace Workbench

/-- A line as the workbench understands it. -/
inductive Input where
  /-- A command: what follows the colon, and the argument. -/
  | command (name argument : String)
  /-- A line for the active grammar. -/
  | line (text : String)
  deriving DecidableEq, Repr

/-- Whether a character is not a blank. -/
def isInk (c : Char) : Bool := !Text.isBlank c

/-- Tells commands from lines; blanks around the whole do not count. -/
def Input.ofLine (line : String) : Input :=
  match Text.trim line.toList with
  | ':' :: rest =>
    .command (String.ofList (rest.takeWhile isInk))
      (String.ofList (Text.trim (rest.dropWhile isInk)))
  | text => .line (String.ofList text)

/-- What a command asks for. -/
inductive Command where
  | showGrammar
  | setGrammar (source : String)
  | showTree
  | showTable
  | showTokens (line : String)
  | accepts (line : String)
  | help
  | quit
  | unknown (name : String)
  deriving DecidableEq, Repr

/-- The command with a name and an argument; most commands do not look at the argument. -/
def Command.ofName (name argument : String) : Command :=
  match name with
  | "grammar" | "g" => if argument.isEmpty then .showGrammar else .setGrammar argument
  | "ast" => .showTree
  | "nfa" => .showTable
  | "tokens" | "t" => .showTokens argument
  | "match" | "m" => .accepts argument
  | "help" | "h" | "?" => .help
  | "quit" | "q" | "exit" => .quit
  | _ => .unknown name

/-- The commands that a user is offered when typing. -/
def commandNames : List String :=
  [":grammar", ":ast", ":nfa", ":tokens", ":match", ":help", ":quit"]

/-- What the help command shows. -/
def helpText : String := "\n".intercalate [
  ":grammar <grammar>   Compile and activate a grammar (:g)",
  ":grammar             Show the active grammar",
  ":ast                 Show the parsed grammar tree",
  ":nfa                 Show the automaton state table",
  ":tokens <line>       Show how a line is tokenized (:t)",
  ":match <line>        Test a line without annotating (:m)",
  ":help                Show this help",
  ":quit                Leave the workbench (:q)",
  "<line>               Show every interpretation of a line"]

/-! ## Unfinished grammars -/

/-- The number of open parentheses after some characters, given the number before them.  A closing
parenthesis with no partner does not count. -/
def depthAfter (depth : Nat) : List Char → Nat
  | [] => depth
  | '(' :: rest => depthAfter (depth + 1) rest
  | ')' :: rest => depthAfter (depth - 1) rest
  | _ :: rest => depthAfter depth rest

/-- The rest of a list of characters after the given ones, if it begins with them. -/
def dropStart : (start chars : List Char) → Option (List Char)
  | [], chars => some chars
  | _ :: _, [] => none
  | s :: start, c :: chars => if s = c then dropStart start chars else none

/-- The number of parentheses that a grammar command has left open; any other input has none. -/
def openGroups (input : String) : Nat :=
  match dropStart ":grammar".toList (Text.trimLeft input.toList) with
  | some body => depthAfter 0 body
  | none => 0

end Workbench
end CommandGrammar
