import CommandGrammar.Interpretation
import CommandGrammar.Matching.Step

/-!
# Paths

A path is a way through an automaton that is alive: the state it is in, and the stack of what it has
read.  A token is pushed onto the stack as it is; when a rule is completed it claims the tokens on
top of the stack, down to the last claim.  At the end of a line the stack, read from the bottom, is
a reading of the line.
-/

namespace CommandGrammar

/-- What a path has read, last entry first. -/
abbrev Stack := List Entry

namespace Stack

/-- Completes a rule, which claims the tokens on top of the stack and those given, which come after
them. -/
def claimOnto (rule : Rule) (claimed : List String) : Stack → Stack
  | .token text :: rest => claimOnto rule (text :: claimed) rest
  | stack => .claim ⟨rule, claimed⟩ :: stack

/-- Completes a rule, which claims the tokens on top of the stack. -/
def complete (stack : Stack) (rule : Rule) : Stack := claimOnto rule [] stack

/-- Pushes a symbol; the end mark leaves no trace. -/
def push (stack : Stack) : Symbol → Stack
  | .token text => .token text :: stack
  | .finish => stack

/-- The reading that a stack holds. -/
def reading (stack : Stack) : Interpretation := ⟨stack.reverse⟩

end Stack

/-- A way through an automaton that is alive: the state it is in and what it has read. -/
structure Path where
  state : Nat
  stack : Stack
  deriving DecidableEq, Hashable

namespace Automaton

/-- Completes the rules of the emit states left on the way, in order. -/
def completeAll (a : Automaton) (stack : Stack) (emits : List Nat) : Stack :=
  emits.foldl (fun stack id =>
    match a.state? id with
    | some (.emit rule _) => stack.complete rule
    | _ => stack) stack

/-- The path after a step across a symbol. -/
def follow (a : Automaton) (symbol : Symbol) (path : Path) (step : Step) : Path :=
  ⟨step.target, (a.completeAll path.stack step.emits).push symbol⟩

/-- The paths after one path has crossed a symbol. -/
def pathsAfter (a : Automaton) (symbol : Symbol) (path : Path) : List Path :=
  (a.steps path.state symbol).map (a.follow symbol path)

end Automaton

end CommandGrammar
