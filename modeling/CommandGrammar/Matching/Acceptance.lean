import CommandGrammar.Matching.Step

/-!
# Matching a line without its readings

Whether a line is accepted at all can be told from the set of the states that are alive, without the
paths that led to them.  `Automaton.accepts` takes this set across the symbols of the line; the line
is accepted if the accepting state is alive after the end mark.
-/

namespace CommandGrammar
namespace Automaton

/-- The states that are alive after a symbol, each once. -/
def advanceStates (a : Automaton) (live : List Nat) (symbol : Symbol) : List Nat :=
  (live.flatMap fun state => (a.steps state symbol).map Step.target).eraseDups

/-- Whether a line is accepted. -/
def accepts (a : Automaton) (tokens : List String) : Bool :=
  ((Symbol.ofTokens tokens).foldl a.advanceStates [a.start]).contains a.accept

end Automaton
end CommandGrammar
