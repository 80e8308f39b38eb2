import CommandGrammar.Automaton.Basic

/-!
# Writing automata

The table of an automaton is shown with one line per state: a star before the accepting state, the
number of the state, and what the state does.
-/

namespace CommandGrammar

namespace State

/-- A list of state numbers between brackets. -/
def numbers (ids : List Nat) : String :=
  "[" ++ ", ".intercalate (ids.map toString) ++ "]"

/-- What a state does, on one line. -/
def shown : State → String
  | .halt => "-"
  | .consume transitions =>
    ", ".intercalate (transitions.toList.map fun t => t.1.shown ++ " -> " ++ toString t.2)
  | .free next => "ε -> " ++ numbers next
  | .emit rule next => "EMIT " ++ rule.name ++ "; ε -> " ++ numbers next

end State

namespace Automaton

/-- A number that takes up at least four columns, with blanks before it. -/
def inColumn (id : Nat) : String :=
  let digits := toString id
  "".pushn ' ' (4 - digits.length) ++ digits

/-- The line of a state in the table. -/
def row (a : Automaton) (id : Nat) (state : State) : String :=
  (if id = a.accept then "*" else " ") ++ inColumn id ++ ": " ++ state.shown ++ "\n"

/-- The rows of the states from `id` on. -/
def rowsFrom (a : Automaton) (id : Nat) : List State → List String
  | [] => []
  | state :: rest => a.row id state :: rowsFrom a (id + 1) rest

/-- The table of an automaton. -/
def shown (a : Automaton) : String := String.join (a.rowsFrom 0 a.states.toList)

end Automaton

end CommandGrammar
