/-!
# Events

What the library does on the way to an answer is reported in events, which a caller may log.  They
never change an answer.
-/

namespace CommandGrammar

/-- Something that happened on the way to an answer. -/
inductive Event where
  /-- The automaton of a grammar was built. -/
  | automatonBuilt (source : String) (states : Nat)
  /-- The symbol at `position` was consumed, and `paths` ways are alive after it. -/
  | advanced (position paths : Nat)
  /-- None of `paths` ways led across the symbol at `position`. -/
  | died (position paths failures : Nat)
  /-- More than `limit` ways were alive after the symbol at `position`. -/
  | flooded (limit position : Nat)
  /-- A command of the workbench was entered. -/
  | commandEntered (name : String)
  /-- The workbench has a new grammar. -/
  | grammarChanged (source : String)
  deriving DecidableEq, Repr

end CommandGrammar
