import CommandGrammar.Automaton.Basic

/-!
# Building automata

Larger automata are put together from smaller ones by laying their tables one after the other and
adding free transitions.  A part keeps its place in the whole: its first state is its entry, its
last state is its exit, and `State.shift` renumbers what lies between.

A free transition cannot leave a state that consumes, so every operation that has to go on from the
exit of a part fails when that exit consumes (`TableFault.freeFromConsuming`).  What an operation
returns has passed `Automaton.ofStates` like any other table.
-/

namespace CommandGrammar

/-- Adds a free transition to a state. -/
def State.link (target : Nat) : State → Except TableFault State
  | .halt => .ok (.free [target])
  | .consume _ => .error .freeFromConsuming
  | .free next => .ok (.free (next ++ [target]))
  | .emit rule next => .ok (.emit rule (next ++ [target]))

namespace Automaton

/-- Adds a free transition to the last state of a table. -/
def linkLast (states : Array State) (target : Nat) : Except TableFault (Array State) :=
  match states.back? with
  | none => .error .noStates
  | some last => do
    let linked ← last.link target
    return states.pop.push linked

/-- The states of a part as they stand after `offset` other states. -/
def shifted (offset : Nat) (part : Automaton) : Array State := part.states.map (State.shift offset)

/-! ## Parts without parts -/

/-- The automaton of one state, which accepts nothing but the empty line. -/
def trivial : Automaton where
  states := #[.halt]
  nonempty := by decide
  closed := by simp [State.within, State.successors]

/-- Accepts the lines of one token that the label accepts. -/
def consuming (label : Label) : Automaton where
  states := #[.consume (.single label 1), .halt]
  nonempty := by simp
  closed := by simp [State.within, State.successors, Transitions.targets, Transitions.single]

/-- A table between a new entry, from which the given states are reached for free, and a new exit. -/
def enclosed (entries : List Nat) (states : Array State) : Array State :=
  (#[State.free entries] ++ states).push .halt

/-! ## Parts one after the other -/

/-- Goes on from the last state of a table to the entry of a part. -/
def followedBy (states : Array State) (part : Automaton) : Except TableFault (Array State) := do
  let linked ← linkLast states states.size
  return linked ++ part.shifted states.size

/-- Runs the parts one after the other. -/
def concat : List Automaton → Except TableFault Automaton
  | [] => .ok trivial
  | first :: rest => do
    let states ← rest.foldlM followedBy first.states
    ofStates states

/-! ## Parts side by side -/

/-- The tables of parts that stand side by side from `offset` on, each with a way from its exit to
`exit`, and before them the numbers of their entries. -/
def beside (exit : Nat) (offset : Nat) : List Automaton → Except TableFault (List Nat × Array State)
  | [] => .ok ([], #[])
  | part :: rest => do
    let states ← linkLast (part.shifted offset) exit
    let (entries, others) ← beside exit (offset + part.size) rest
    return (offset :: entries, states ++ others)

/-- The number of states of all parts together. -/
def totalSize : List Automaton → Nat
  | [] => 0
  | part :: rest => part.size + totalSize rest

/-- Runs any one of the parts. -/
def union : List Automaton → Except TableFault Automaton
  | [] => .ok trivial
  | [part] => .ok part
  | parts => do
    let exit := 1 + totalSize parts
    let (entries, states) ← beside exit 1 parts
    ofStates (enclosed entries states)

/-! ## One part, repeated or left out -/

/-- Runs the part any number of times. -/
def star (part : Automaton) : Except TableFault Automaton := do
  let exit := part.size + 1
  let back ← linkLast (part.shifted 1) 1
  let states ← linkLast back exit
  ofStates (enclosed [1, exit] states)

/-- Runs the part at least once. -/
def plus (part : Automaton) : Except TableFault Automaton := do
  let back ← linkLast part.states 0
  let states ← linkLast back part.size
  ofStates (states.push .halt)

/-- Runs the part at most once. -/
def optional (part : Automaton) : Except TableFault Automaton := do
  let exit := part.size + 1
  let states ← linkLast (part.shifted 1) exit
  ofStates (enclosed [1, exit] states)

/-- Runs the part as often as the quantifier says. -/
def quantify : Quantifier → Automaton → Except TableFault Automaton
  | .star => star
  | .plus => plus
  | .optional => optional

/-- Runs the part and then reports a rule. -/
def emitting (part : Automaton) (rule : Rule) : Except TableFault Automaton := do
  let states ← linkLast part.states part.size
  ofStates (states.push (.emit rule []))

end Automaton

end CommandGrammar
