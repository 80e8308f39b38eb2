/-!
# Match options

An ambiguous grammar can give a line any number of readings, so a match for readings has a limit: it
fails when too many ways through the automaton are alive at once.  Ways that cannot be told apart
any more may be merged before they count.
-/

namespace CommandGrammar

/-- How far a match for readings may go. -/
structure MatchOptions where
  /-- How many paths may be alive at once; zero counts as one. -/
  maxLivePaths : Nat
  /-- Whether paths with the same future are merged. -/
  mergeDuplicatePaths : Bool
  deriving DecidableEq, Repr

namespace MatchOptions

/-- The options that fit most grammars. -/
def standard : MatchOptions := ⟨4096, true⟩

/-- A closer limit. -/
def strict : MatchOptions := { standard with maxLivePaths := 256 }

/-- The largest limit that can be written down in a machine word. -/
def unbounded : MatchOptions := { standard with maxLivePaths := UInt64.size - 1 }

/-- Sets the limit, which is at least one. -/
def withMaxLivePaths (options : MatchOptions) (limit : Nat) : MatchOptions :=
  { options with maxLivePaths := max 1 limit }

/-- Says whether paths with the same future are merged. -/
def withMergeDuplicatePaths (options : MatchOptions) (merge : Bool) : MatchOptions :=
  { options with mergeDuplicatePaths := merge }

/-- The limit that is in force. -/
def limit (options : MatchOptions) : Nat := max 1 options.maxLivePaths

end MatchOptions

end CommandGrammar
