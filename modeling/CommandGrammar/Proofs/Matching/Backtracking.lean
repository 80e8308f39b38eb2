import CommandGrammar.Proofs.Matching.Conservation

/-!
# Readings in the order of a backtracking search

A match takes all of its paths across one symbol before it looks at the next one.  The plain way to
list the readings of a line is another: take the first step, go on from there as far as possible,
and come back for the next step.  `Automaton.backtrack` does this.  It gives up a path as soon as
there is no step, while a match carries the other paths on.

Both come to the same list.  The successors of a path take its place in the frontier, so the
frontier after some symbols is what the paths before them lead to, one path after the other
(`crossings_apart`).  This is the induction: it is over the symbols, with any frontier to start
from.  Started with the one path at the beginning of a line, the frontier at its end is the list of
the backtracking search (`map_stack_pathsAlong`), and the match fails exactly where that list is
empty (`interpret_eq_backtrack`).
-/

namespace CommandGrammar
namespace Automaton

variable {a : Automaton} {options : MatchOptions} {frontier : List Path}

/-- The stacks at the end of the symbols, when the steps from a state are tried one after the other
and each of them is followed to the end before the next is tried. -/
def backtrack (a : Automaton) : List Symbol → Nat → Stack → List Stack
  | [], _, stack => [stack]
  | symbol :: rest, state, stack =>
    (a.steps state symbol).flatMap fun step =>
      a.backtrack rest step.target ((a.completeAll stack step.emits).push symbol)

/-- The paths along the symbols hold the stacks of the search, in its order. -/
theorem map_stack_pathsAlong (symbols : List Symbol) (path : Path) :
    (a.pathsAlong symbols path).map Path.stack = a.backtrack symbols path.state path.stack := by
  induction symbols generalizing path with
  | nil => rfl
  | cons symbol rest ih =>
    rw [pathsAlong, pathsAfter, backtrack, List.flatMap_map, List.map_flatMap]
    congr 1
    funext step
    exact ih (a.follow symbol path step)

/-- Without merging, a frontier goes where its paths go, one path after the other. -/
theorem crossings_apart (h : options.mergeDuplicatePaths = false) (symbols : List Symbol) :
    a.crossings options frontier symbols = frontier.flatMap (a.pathsAlong symbols) := by
  induction symbols generalizing frontier with
  | nil => exact (List.flatMap_singleton' frontier).symm
  | cons symbol rest ih =>
    have hcrossing : a.crossing options frontier symbol =
        frontier.flatMap (a.pathsAfter symbol) := by
      rw [crossing, MatchOptions.kept, if_neg (by rw [h]; decide)]
    rw [crossings_cons, ih, hcrossing, List.flatMap_assoc]
    rfl

/-- A frontier that is alive at the end of the symbols has been alive all the way, and its stacks
are the result. -/
theorem unlimitedFrom_eq_ok {symbols : List Symbol}
    (h : a.crossings options frontier symbols ≠ []) :
    a.unlimitedFrom options frontier symbols =
      .ok ((a.crossings options frontier symbols).map fun path => path.stack.reading) := by
  induction symbols generalizing frontier with
  | nil => rfl
  | cons symbol rest ih =>
    rw [crossings_cons] at h
    have halive : a.crossing options frontier symbol ≠ [] := by
      intro hdead
      rw [hdead] at h
      exact h (crossings_of_nil rest)
    rw [unlimitedFrom, if_neg halive, crossings_cons, ih h]

/-- A frontier that is not alive at the end of the symbols has died at one of them. -/
theorem exists_unlimitedFrom_eq_noMatch {symbols : List Symbol} (hfrontier : frontier ≠ [])
    (h : a.crossings options frontier symbols = []) :
    ∃ failures, a.unlimitedFrom options frontier symbols = .error (.noMatch failures) := by
  induction symbols generalizing frontier with
  | nil => exact absurd h hfrontier
  | cons symbol rest ih =>
    rw [unlimitedFrom]
    split
    · exact ⟨_, rfl⟩
    · next halive => exact ih halive h

/-- **Readings are found in the order of a backtracking search.**  Without merging, and as long as
no limit stops the match, which a large enough one does not, a match finds exactly the readings that
the search lists, in its order and as often as it lists them; where the search lists none, the match
fails. -/
theorem interpret_eq_backtrack (a : Automaton) (tokens : List String) :
    (∃ bound, ∀ limit, bound ≤ limit → ¬ Flooded (a.interpret ⟨limit, false⟩ tokens)) ∧
    ∀ limit, ¬ Flooded (a.interpret ⟨limit, false⟩ tokens) →
      (a.backtrack (Symbol.ofTokens tokens) a.start [] ≠ [] →
        a.interpret ⟨limit, false⟩ tokens =
          .ok ((a.backtrack (Symbol.ofTokens tokens) a.start []).map Stack.reading)) ∧
      (a.backtrack (Symbol.ofTokens tokens) a.start [] = [] →
        ∃ failures, a.interpret ⟨limit, false⟩ tokens = .error (.noMatch failures)) := by
  obtain ⟨bound, hbound⟩ := a.exists_limit_interpret tokens
  refine ⟨⟨bound, fun limit hle => hbound ⟨limit, false⟩ hle⟩, fun limit hflooded => ?_⟩
  have hlast : a.crossings ⟨limit, false⟩ [⟨a.start, []⟩] (Symbol.ofTokens tokens) =
      a.pathsAlong (Symbol.ofTokens tokens) ⟨a.start, []⟩ := by
    rw [crossings_apart rfl, List.flatMap_singleton]
  rw [interpret_eq_unlimited hflooded, unlimited, ← map_stack_pathsAlong _ ⟨a.start, []⟩, ← hlast,
    List.map_map, Ne, List.map_eq_nil_iff]
  exact ⟨unlimitedFrom_eq_ok, exists_unlimitedFrom_eq_noMatch (List.cons_ne_nil _ _)⟩

/-- The search comes to two stacks, that of the way with rules before that of the way without, and
the match finds their readings in the same order. -/
theorem interpret_eq_backtrack_detour :
    ¬ Flooded (detour.interpret ⟨2, false⟩ ["go", "north"]) ∧
    detour.backtrack (Symbol.ofTokens ["go", "north"]) detour.start [] =
      [[.token "north", .claim ⟨.capture ["X"], []⟩, .claim ⟨.keyword "go", ["go"]⟩],
        [.token "north", .token "go"]] ∧
    detour.interpret ⟨2, false⟩ ["go", "north"] =
      .ok [⟨[.claim ⟨.keyword "go", ["go"]⟩, .claim ⟨.capture ["X"], []⟩, .token "north"]⟩,
        ⟨[.token "go", .token "north"]⟩] := by
  have hflooded : ¬ Flooded (detour.interpret ⟨2, false⟩ ["go", "north"]) := by
    rw [interpret_detour]
    exact not_flooded_ok _
  have hsearch : detour.backtrack (Symbol.ofTokens ["go", "north"]) detour.start [] =
      [[.token "north", .claim ⟨.capture ["X"], []⟩, .claim ⟨.keyword "go", ["go"]⟩],
        [.token "north", .token "go"]] := by
    simp only [ofTokens_cons, ofTokens_nil, backtrack, start, steps_detour_first,
      steps_detour_second, steps_detour_finish, List.flatMap_cons, List.flatMap_nil]
    decide +kernel
  refine ⟨hflooded, hsearch, ?_⟩
  rw [((interpret_eq_backtrack detour _).2 2 hflooded).1 (by rw [hsearch]; decide), hsearch]
  rfl

end Automaton
end CommandGrammar
