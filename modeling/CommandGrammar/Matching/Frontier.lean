import CommandGrammar.Event
import CommandGrammar.Matching.Failure
import CommandGrammar.Matching.Options
import CommandGrammar.Matching.Path

/-!
# Matching a line for its readings

`Automaton.interpret` finds every reading of a line.  It keeps the frontier, the list of the paths
that are alive, and takes all of it across one symbol after the other.  The successors of a path
take its place in the order of the steps, so the readings come in the order in which a search that
tries the first of several ways first would find them.

Two paths in the same state with the same stack have the same future, so all but the first of them
may be dropped.  A frontier that would pass the limit ends the match; a frontier with no successors
ends it too, and every one of its paths then reports what it could have gone on with.
-/

namespace CommandGrammar

/-- A frontier that is being put together: the paths so far, and the same paths for look-up. -/
structure Gathering where
  paths : Array Path
  seen : Std.HashSet Path

namespace Gathering

/-- Nothing has been gathered. -/
def start : Gathering := ⟨#[], ∅⟩

/-- Adds a path, unless it is merged with an earlier one.  Fails when the limit is passed. -/
def add (options : MatchOptions) (gathering : Gathering) (path : Path) : Option Gathering :=
  if options.mergeDuplicatePaths && gathering.seen.contains path then some gathering
  else
    let paths := gathering.paths.push path
    if options.limit < paths.size then none
    else some ⟨paths, gathering.seen.insert path⟩

end Gathering

namespace Automaton

/-- The frontier after a symbol, or nothing when the limit is passed on the way. -/
def advance (a : Automaton) (options : MatchOptions) (frontier : List Path) (symbol : Symbol) :
    Option (List Path) := do
  let gathered ← frontier.foldlM
    (fun gathering path => (a.pathsAfter symbol path).foldlM (Gathering.add options) gathering)
    Gathering.start
  return gathered.paths.toList

/-- The failures of the paths of a frontier at a symbol that none of them can cross. -/
def failuresAt (a : Automaton) (frontier : List Path) (symbol : Symbol) : OrderedSet Failure :=
  OrderedSet.ofList (frontier.map fun path => ⟨a.expected path.state symbol, symbol⟩)

/-- What a match has come to, and what happened on the way. -/
structure Outcome where
  result : Except MatchError (List Interpretation)
  events : List Event

/-- Runs the frontier over the symbols from `position` on. -/
def interpretFrom (a : Automaton) (options : MatchOptions) (position : Nat) (frontier : List Path) :
    List Symbol → Outcome
  | [] => ⟨.ok (frontier.map fun path => path.stack.reading), []⟩
  | symbol :: rest =>
    match a.advance options frontier symbol with
    | none =>
      ⟨.error (.tooManyPaths options.limit position), [.flooded options.limit position]⟩
    | some [] =>
      let failures := a.failuresAt frontier symbol
      ⟨.error (.noMatch failures), [.died position frontier.length failures.size]⟩
    | some next =>
      let outcome := a.interpretFrom options (position + 1) next rest
      ⟨outcome.result, .advanced position next.length :: outcome.events⟩

/-- Matches a line for all its readings, and reports what happened on the way. -/
def interpretWithEvents (a : Automaton) (options : MatchOptions) (tokens : List String) : Outcome :=
  a.interpretFrom options 0 [⟨a.start, []⟩] (Symbol.ofTokens tokens)

/-- All readings of a line, in the order in which the ways through the automaton were tried. -/
def interpret (a : Automaton) (options : MatchOptions) (tokens : List String) :
    Except MatchError (List Interpretation) :=
  (a.interpretWithEvents options tokens).result

end Automaton

end CommandGrammar
