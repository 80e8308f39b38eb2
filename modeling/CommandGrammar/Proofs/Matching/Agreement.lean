import CommandGrammar.Matching.Acceptance
import CommandGrammar.Proofs.Matching.FreePath
import CommandGrammar.Proofs.Matching.Frontier

/-!
# The two ways of matching agree

A line can be matched for its readings, which takes a frontier of paths across the symbols, or only
for whether it is accepted, which takes the set of their states.  The second is a shadow of the
first: forgetting the stacks, the states that are alive after any number of symbols are those of the
paths (`mem_foldl_advanceStates_iff`).  Across the end mark only the accepting state is reached, so
a line is accepted exactly when some path leads along all of it (`accepts_iff_exists_path`).

Merging duplicates does not change which paths there are, and the limit only decides whether the
match is carried to its end.  Hence `interpret_agrees_accepts`: unless the limit is passed, a line
is accepted exactly when it has a reading.  Nothing is asked of the table for this.
-/

namespace CommandGrammar
namespace Automaton

variable {a : Automaton}

/-! ## The states of a frontier -/

theorem mem_advanceStates_iff {live : List Nat} {symbol : Symbol} {s : Nat} :
    s ∈ a.advanceStates live symbol ↔
      ∃ q ∈ live, ∃ step ∈ a.steps q symbol, step.target = s := by
  rw [advanceStates, List.mem_eraseDups, List.mem_flatMap]
  simp only [List.mem_map]

/-- The live states are those of the paths of a frontier. -/
def Shadows (live : List Nat) (frontier : List Path) : Prop :=
  ∀ q, q ∈ live ↔ ∃ path ∈ frontier, path.state = q

/-- One symbol takes the states where it takes the paths. -/
theorem Shadows.step {live : List Nat} {frontier : List Path} (h : Shadows live frontier)
    (symbol : Symbol) :
    Shadows (a.advanceStates live symbol) (frontier.flatMap (a.pathsAfter symbol)) := by
  intro s
  rw [mem_advanceStates_iff]
  constructor
  · rintro ⟨q, hq, step, hstep, rfl⟩
    obtain ⟨path, hpath, rfl⟩ := (h q).mp hq
    exact ⟨a.follow symbol path step,
      List.mem_flatMap.mpr ⟨path, hpath, List.mem_map_of_mem hstep⟩, rfl⟩
  · rintro ⟨after, hafter, rfl⟩
    obtain ⟨path, hpath, hafter⟩ := List.mem_flatMap.mp hafter
    obtain ⟨step, hstep, rfl⟩ := List.mem_map.mp hafter
    exact ⟨path.state, (h _).mpr ⟨path, hpath, rfl⟩, step, hstep, rfl⟩

/-- The states that are alive after the symbols are those of the paths along them. -/
theorem mem_foldl_advanceStates_iff {symbols : List Symbol} {live : List Nat}
    {frontier : List Path} (h : Shadows live frontier) {s : Nat} :
    s ∈ symbols.foldl a.advanceStates live ↔
      ∃ path ∈ frontier, ∃ final ∈ a.pathsAlong symbols path, final.state = s := by
  induction symbols generalizing live frontier with
  | nil =>
    rw [List.foldl_nil, h s]
    simp only [pathsAlong, List.mem_singleton, exists_eq_left]
  | cons symbol rest ih =>
    rw [List.foldl_cons, ih (h.step symbol)]
    simp only [List.mem_flatMap, mem_pathsAlong_cons]
    constructor
    · rintro ⟨next, ⟨path, hpath, hnext⟩, final, hfinal, hs⟩
      exact ⟨path, hpath, final, ⟨next, hnext, hfinal⟩, hs⟩
    · rintro ⟨path, hpath, final, ⟨next, hnext, hfinal⟩, hs⟩
      exact ⟨next, ⟨path, hpath, hnext⟩, final, hfinal, hs⟩

/-! ## Acceptance -/

theorem ofTokens_nil : Symbol.ofTokens [] = [.finish] := rfl

theorem ofTokens_cons (token : String) (tokens : List String) :
    Symbol.ofTokens (token :: tokens) = .token token :: Symbol.ofTokens tokens := rfl

/-- A path along a whole line ends in the accepting state. -/
theorem state_of_mem_pathsAlong {tokens : List String} {path final : Path}
    (h : final ∈ a.pathsAlong (Symbol.ofTokens tokens) path) : final.state = a.accept := by
  induction tokens generalizing path with
  | nil =>
    rw [ofTokens_nil, mem_pathsAlong_cons] at h
    obtain ⟨next, hnext, hfinal⟩ := h
    obtain ⟨step, hstep, rfl⟩ := List.mem_map.mp hnext
    rw [List.mem_singleton.mp hfinal]
    exact target_of_mem_steps_finish hstep
  | cons token tokens ih =>
    rw [ofTokens_cons, mem_pathsAlong_cons] at h
    obtain ⟨next, _, hfinal⟩ := h
    exact ih hfinal

/-- A line is accepted exactly when a path leads along it. -/
theorem accepts_iff_exists_path {tokens : List String} (stack : Stack) :
    a.accepts tokens = true ↔
      ∃ final, final ∈ a.pathsAlong (Symbol.ofTokens tokens) ⟨a.start, stack⟩ := by
  have hstart : Shadows [a.start] [⟨a.start, stack⟩] := by
    intro q
    simp [eq_comm]
  rw [accepts, List.contains_iff_mem, mem_foldl_advanceStates_iff hstart]
  constructor
  · rintro ⟨path, hpath, final, hfinal, _⟩
    rw [List.mem_singleton.mp hpath] at hfinal
    exact ⟨final, hfinal⟩
  · rintro ⟨final, hfinal⟩
    exact ⟨_, List.mem_singleton_self _, final, hfinal, state_of_mem_pathsAlong hfinal⟩

/-! ## Agreement -/

theorem interpret_eq_ok {options : MatchOptions} {tokens : List String}
    {readings : List Interpretation} (h : a.interpret options tokens = .ok readings) :
    readings ≠ [] ∧ ∀ reading, reading ∈ readings ↔
      ∃ final ∈ a.pathsAlong (Symbol.ofTokens tokens) ⟨a.start, []⟩,
        final.stack.reading = reading := by
  obtain ⟨hne, hmem⟩ := interpretFrom_eq_ok (List.cons_ne_nil _ _) h
  refine ⟨hne, fun reading => ?_⟩
  rw [hmem]
  simp only [List.mem_singleton, exists_eq_left]

theorem interpret_eq_noMatch {options : MatchOptions} {tokens : List String}
    {failures : OrderedSet Failure} (h : a.interpret options tokens = .error (.noMatch failures)) :
    a.pathsAlong (Symbol.ofTokens tokens) ⟨a.start, []⟩ = [] :=
  interpretFrom_eq_noMatch h _ (List.mem_singleton_self _)

theorem accepts_of_interpret_eq_ok {options : MatchOptions} {tokens : List String}
    {readings : List Interpretation} (h : a.interpret options tokens = .ok readings) :
    a.accepts tokens = true := by
  obtain ⟨hne, hmem⟩ := interpret_eq_ok h
  obtain ⟨reading, hreading⟩ := List.exists_mem_of_ne_nil readings hne
  obtain ⟨final, hfinal, _⟩ := (hmem reading).mp hreading
  exact (accepts_iff_exists_path []).mpr ⟨final, hfinal⟩

theorem not_accepts_of_interpret_eq_noMatch {options : MatchOptions} {tokens : List String}
    {failures : OrderedSet Failure} (h : a.interpret options tokens = .error (.noMatch failures)) :
    a.accepts tokens = false := by
  rw [← Bool.not_eq_true, accepts_iff_exists_path [], interpret_eq_noMatch h]
  rintro ⟨final, hfinal⟩
  cases hfinal

/-- **The two ways of matching agree**, on every table, every line and under all options.  Readings
that are found are not none, and the line is accepted; a line on which no way leads on is not
accepted; so, unless the limit is passed, a line is accepted exactly when it has a reading. -/
theorem interpret_agrees_accepts (a : Automaton) (options : MatchOptions) (tokens : List String) :
    (∀ readings, a.interpret options tokens = .ok readings →
      readings ≠ [] ∧ a.accepts tokens = true) ∧
    (∀ failures, a.interpret options tokens = .error (.noMatch failures) →
      a.accepts tokens = false) ∧
    (¬ Flooded (a.interpret options tokens) →
      (a.accepts tokens = true ↔
        ∃ readings, a.interpret options tokens = .ok readings ∧ readings ≠ [])) := by
  refine ⟨fun readings h => ⟨(interpret_eq_ok h).1, accepts_of_interpret_eq_ok h⟩,
    fun failures h => not_accepts_of_interpret_eq_noMatch h, fun hlimit => ?_⟩
  cases hresult : a.interpret options tokens with
  | ok readings =>
    constructor
    · intro _
      exact ⟨readings, rfl, (interpret_eq_ok hresult).1⟩
    · intro _
      exact accepts_of_interpret_eq_ok hresult
  | error failure =>
    cases failure with
    | tooManyPaths limit position => exact absurd ⟨limit, position, hresult⟩ hlimit
    | noMatch failures =>
      rw [not_accepts_of_interpret_eq_noMatch hresult]
      constructor
      · intro h
        cases h
      · rintro ⟨readings, h, _⟩
        cases h

end Automaton
end CommandGrammar
