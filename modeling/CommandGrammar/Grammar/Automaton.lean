import CommandGrammar.Automaton.Exit
import CommandGrammar.Grammar.Basic

/-!
# The automaton of a grammar

Every node of a grammar becomes an automaton, put together from those of its parts.  The operations
that do so refuse parts that end in a state that consumes, but no part that comes from a grammar
ends so; `Grammar.exists_build` says that building always succeeds, and `Grammar.automaton` is what
is built.
-/

namespace CommandGrammar

/-- The automaton of a leaf: a keyword consumes its word, a capture one or more tokens, and then the
rule is reported. -/
def Rule.build : Rule → Except TableFault Automaton
  | .keyword word => (Automaton.consuming (.word word)).emitting (.keyword word)
  | .capture tags => do
    let run ← (Automaton.consuming .any).plus
    run.emitting (.capture tags)

theorem Rule.exists_build (rule : Rule) :
    ∃ a, rule.build = .ok a ∧ Automaton.Sound a.states := by
  cases rule with
  | keyword word => exact Automaton.exists_emitting (Automaton.sound_consuming _) _
  | capture tags =>
    obtain ⟨run, plus, sound⟩ := Automaton.exists_plus (Automaton.sound_consuming .any)
    obtain ⟨a, emitting, sound⟩ := Automaton.exists_emitting sound (.capture tags)
    exact ⟨a, by simp [Rule.build, plus, emitting, bind, Except.bind], sound⟩

namespace Grammar

mutual

/-- Builds the automaton of a grammar from those of its parts. -/
def build : Grammar → Except TableFault Automaton
  | .leaf rule => rule.build
  | .sequence children => do Automaton.concat (← buildAll children)
  | .alternatives branches => do Automaton.union (← buildBranches branches)
  | .quantified quantifier inner => do Automaton.quantify quantifier (← inner.build)

/-- Builds the automata of the children of a sequence. -/
def buildAll : List Grammar → Except TableFault (List Automaton)
  | [] => .ok []
  | child :: rest => do
    let first ← child.build
    let others ← buildAll rest
    return first :: others

/-- Builds the automata of the branches of an alternation. -/
def buildBranches : List (List Grammar) → Except TableFault (List Automaton)
  | [] => .ok []
  | branch :: rest => do
    let parts ← buildAll branch
    let first ← Automaton.concat parts
    let others ← buildBranches rest
    return first :: others

end

mutual

/-- Building the automaton of a grammar succeeds. -/
theorem exists_build : (grammar : Grammar) →
    ∃ a, grammar.build = .ok a ∧ Automaton.Sound a.states
  | .leaf rule => rule.exists_build
  | .sequence children => by
    obtain ⟨parts, all, sound⟩ := exists_buildAll children
    obtain ⟨a, concat, sound⟩ := Automaton.exists_concat sound
    exact ⟨a, by simp [build, all, concat, bind, Except.bind], sound⟩
  | .alternatives branches => by
    obtain ⟨parts, all, sound⟩ := exists_buildBranches branches
    obtain ⟨a, union, sound⟩ := Automaton.exists_union sound
    exact ⟨a, by simp [build, all, union, bind, Except.bind], sound⟩
  | .quantified quantifier inner => by
    obtain ⟨part, built, sound⟩ := exists_build inner
    obtain ⟨a, quantify, sound⟩ := Automaton.exists_quantify quantifier sound
    exact ⟨a, by simp [build, built, quantify, bind, Except.bind], sound⟩

/-- Building the automata of a sequence succeeds. -/
theorem exists_buildAll : (children : List Grammar) →
    ∃ parts, buildAll children = .ok parts ∧ ∀ part ∈ parts, Automaton.Sound part.states
  | [] => ⟨[], rfl, by simp⟩
  | child :: rest => by
    obtain ⟨first, built, sound⟩ := exists_build child
    obtain ⟨others, all, sounds⟩ := exists_buildAll rest
    refine ⟨first :: others, ?_, by simpa using ⟨sound, sounds⟩⟩
    simp [buildAll, built, all, bind, Except.bind, pure, Except.pure]

/-- Building the automata of the branches of an alternation succeeds. -/
theorem exists_buildBranches : (branches : List (List Grammar)) →
    ∃ parts, buildBranches branches = .ok parts ∧ ∀ part ∈ parts, Automaton.Sound part.states
  | [] => ⟨[], rfl, by simp⟩
  | branch :: rest => by
    obtain ⟨parts, all, sounds⟩ := exists_buildAll branch
    obtain ⟨first, concat, sound⟩ := Automaton.exists_concat sounds
    obtain ⟨others, run, sounds⟩ := exists_buildBranches rest
    refine ⟨first :: others, ?_, by simpa using ⟨sound, sounds⟩⟩
    simp [buildBranches, all, concat, run, bind, Except.bind, pure, Except.pure]

end

/-- The automaton of a grammar. -/
def automaton (grammar : Grammar) : Automaton :=
  match built : grammar.build with
  | .ok a => a
  | .error _ => absurd grammar.exists_build (by simp [built])

/-- The automaton of a grammar is what is built. -/
theorem build_eq_ok_automaton (grammar : Grammar) : grammar.build = .ok grammar.automaton := by
  unfold automaton
  split
  · next built => exact built
  · next built => exact absurd grammar.exists_build (by simp [built])

end Grammar

end CommandGrammar
