import Mathlib.Order.Bounds.Basic
import CommandGrammar.Proofs.Matching.Frontier

/-!
# The limit on live paths

A match gives up when more paths are alive after a symbol than its limit allows.  The question is
what the limit does besides.  The answer is given by comparing a match with the one that has no
limit, whose frontiers (`Automaton.crossings`, `Automaton.frontierAt`) and whose result
(`Automaton.unlimited`) depend on whether duplicates are merged and on nothing else of the options.

A symbol floods the match if the frontier after it, taken without a limit, is too long
(`Automaton.floodings`).  The match is decided by the first such symbol, and if there is none it is
the match without a limit: `interpretFrom_flooded_or_unlimited`.  A frontier that has died out stays
empty, and the limit is at least one, so the symbols after the end of a failed match flood nothing.
-/

namespace CommandGrammar
namespace Automaton

variable {a : Automaton} {options : MatchOptions} {frontier : List Path}

/-! ## Frontiers without a limit -/

/-- The frontier after all of the symbols, when no limit is in force. -/
def crossings (a : Automaton) (options : MatchOptions) (frontier : List Path)
    (symbols : List Symbol) : List Path :=
  symbols.foldl (a.crossing options) frontier

theorem crossings_cons {symbol : Symbol} {rest : List Symbol} :
    a.crossings options frontier (symbol :: rest) =
      a.crossings options (a.crossing options frontier symbol) rest := rfl

/-- A frontier that has died out stays empty. -/
theorem crossings_of_nil (symbols : List Symbol) : a.crossings options [] symbols = [] := by
  induction symbols with
  | nil => rfl
  | cons symbol rest ih =>
    have hcrossing : a.crossing options [] symbol = [] := by
      rw [crossing, List.flatMap_nil, MatchOptions.kept_nil]
    rw [crossings_cons, hcrossing, ih]

/-- The paths of the frontier after the symbols are those along the symbols. -/
theorem mem_crossings_iff {symbols : List Symbol} {path : Path} :
    path ∈ a.crossings options frontier symbols ↔
      ∃ before ∈ frontier, path ∈ a.pathsAlong symbols before := by
  induction symbols generalizing frontier with
  | nil =>
    simp only [crossings, List.foldl_nil, pathsAlong, List.mem_singleton, exists_eq_right']
  | cons symbol rest ih =>
    rw [crossings_cons, ih]
    simp only [mem_crossing_iff, mem_pathsAlong_cons]
    constructor
    · rintro ⟨next, ⟨before, hbefore, hnext⟩, hpath⟩
      exact ⟨before, hbefore, next, hnext, hpath⟩
    · rintro ⟨before, hbefore, next, hnext, hpath⟩
      exact ⟨next, ⟨before, hbefore, hnext⟩, hpath⟩

/-- The frontier of a match after the first `count` symbols of the line, when no limit is in
force. -/
def frontierAt (a : Automaton) (options : MatchOptions) (tokens : List String) (count : Nat) :
    List Path :=
  a.crossings options [⟨a.start, []⟩] ((Symbol.ofTokens tokens).take count)

theorem frontierAt_zero (a : Automaton) (options : MatchOptions) (tokens : List String) :
    a.frontierAt options tokens 0 = [⟨a.start, []⟩] := rfl

theorem getElem?_ofTokens_of_lt {tokens : List String} {p : Nat} (hp : p < tokens.length) :
    (Symbol.ofTokens tokens)[p]? = some (.token tokens[p]) := by
  have hlength : p < (tokens.map Symbol.token).length := by
    rw [List.length_map]
    exact hp
  rw [Symbol.ofTokens, List.getElem?_append_left hlength, List.getElem?_map,
    List.getElem?_eq_getElem hp]
  rfl

theorem getElem?_ofTokens_length (tokens : List String) :
    (Symbol.ofTokens tokens)[tokens.length]? = some .finish := by
  rw [Symbol.ofTokens, List.getElem?_append_right (by rw [List.length_map]), List.length_map,
    Nat.sub_self]
  rfl

/-- The frontier after one more symbol. -/
theorem frontierAt_succ {tokens : List String} {count : Nat} {symbol : Symbol}
    (h : (Symbol.ofTokens tokens)[count]? = some symbol) :
    a.frontierAt options tokens (count + 1) =
      a.crossing options (a.frontierAt options tokens count) symbol := by
  rw [frontierAt, List.take_add_one, h, crossings, List.foldl_append]
  rfl

/-- What a match from a frontier on comes to when no limit is in force. -/
def unlimitedFrom (a : Automaton) (options : MatchOptions) (frontier : List Path) :
    List Symbol → Except MatchError (List Interpretation)
  | [] => .ok (frontier.map fun path => path.stack.reading)
  | symbol :: rest =>
    if a.crossing options frontier symbol = [] then
      .error (.noMatch (a.failuresAt frontier symbol))
    else a.unlimitedFrom options (a.crossing options frontier symbol) rest

/-- What a match of a line comes to when no limit is in force. -/
def unlimited (a : Automaton) (options : MatchOptions) (tokens : List String) :
    Except MatchError (List Interpretation) :=
  a.unlimitedFrom options [⟨a.start, []⟩] (Symbol.ofTokens tokens)

theorem not_flooded_unlimitedFrom (symbols : List Symbol) :
    ¬ Flooded (a.unlimitedFrom options frontier symbols) := by
  induction symbols generalizing frontier with
  | nil => exact not_flooded_ok _
  | cons symbol rest ih =>
    rw [unlimitedFrom]
    split
    · exact not_flooded_noMatch _
    · exact ih

/-! ## Options that merge alike -/

section

variable {others : MatchOptions}

theorem crossing_congr (h : options.mergeDuplicatePaths = others.mergeDuplicatePaths) :
    a.crossing options = a.crossing others := by
  funext frontier symbol
  exact kept_congr h _

theorem unlimitedFrom_congr (h : options.mergeDuplicatePaths = others.mergeDuplicatePaths)
    (symbols : List Symbol) :
    a.unlimitedFrom options frontier symbols = a.unlimitedFrom others frontier symbols := by
  induction symbols generalizing frontier with
  | nil => rfl
  | cons symbol rest ih => rw [unlimitedFrom, unlimitedFrom, crossing_congr h, ih]

theorem unlimited_congr (h : options.mergeDuplicatePaths = others.mergeDuplicatePaths)
    (tokens : List String) : a.unlimited options tokens = a.unlimited others tokens :=
  unlimitedFrom_congr h _

/-- With options that merge alike the frontiers are the same. -/
theorem frontierAt_congr (h : options.mergeDuplicatePaths = others.mergeDuplicatePaths)
    (tokens : List String) (count : Nat) :
    a.frontierAt options tokens count = a.frontierAt others tokens count := by
  rw [frontierAt, frontierAt, crossings, crossings, crossing_congr h]

end

/-! ## Where the limit is passed -/

/-- The symbols, by their place in the list, after which too many paths would be alive. -/
def floodings (a : Automaton) (options : MatchOptions) (frontier : List Path)
    (symbols : List Symbol) : Set Nat :=
  {n | n < symbols.length ∧
    options.limit < (a.crossings options frontier (symbols.take (n + 1))).length}

section

variable {symbol : Symbol} {rest : List Symbol}

theorem zero_mem_floodings_cons :
    0 ∈ a.floodings options frontier (symbol :: rest) ↔
      options.limit < (a.crossing options frontier symbol).length := by
  constructor
  · exact fun h => h.2
  · exact fun h => ⟨Nat.succ_pos _, h⟩

theorem succ_mem_floodings_cons {n : Nat} :
    n + 1 ∈ a.floodings options frontier (symbol :: rest) ↔
      n ∈ a.floodings options (a.crossing options frontier symbol) rest := by
  constructor
  · exact fun h => ⟨Nat.lt_of_succ_lt_succ h.1, h.2⟩
  · exact fun h => ⟨Nat.succ_lt_succ h.1, h.2⟩

/-- Nothing is flooded after a frontier that has died out. -/
theorem floodings_of_nil (symbols : List Symbol) : a.floodings options [] symbols = ∅ := by
  rw [Set.eq_empty_iff_forall_notMem]
  rintro n ⟨_, h⟩
  rw [crossings_of_nil] at h
  exact absurd h (Nat.not_lt_zero _)

/-- A first symbol that floods nothing leaves the question to the rest of the line. -/
theorem isLeast_floodings_cons {n : Nat} (hfirst : 0 ∉ a.floodings options frontier (symbol :: rest))
    (h : IsLeast (a.floodings options (a.crossing options frontier symbol) rest) n) :
    IsLeast (a.floodings options frontier (symbol :: rest)) (n + 1) := by
  refine ⟨succ_mem_floodings_cons.mpr h.1, fun m hm => ?_⟩
  cases m with
  | zero => exact absurd hm hfirst
  | succ m => exact Nat.succ_le_succ (h.2 (succ_mem_floodings_cons.mp hm))

theorem floodings_cons_eq_empty (hfirst : 0 ∉ a.floodings options frontier (symbol :: rest))
    (h : a.floodings options (a.crossing options frontier symbol) rest = ∅) :
    a.floodings options frontier (symbol :: rest) = ∅ := by
  rw [Set.eq_empty_iff_forall_notMem]
  intro n hn
  cases n with
  | zero => exact hfirst hn
  | succ n =>
    rw [succ_mem_floodings_cons, h] at hn
    exact hn

end

/-- A match is decided by the first symbol that floods it; if there is none, it is the match without
a limit. -/
theorem interpretFrom_flooded_or_unlimited (symbols : List Symbol) (position : Nat) :
    (∃ n, IsLeast (a.floodings options frontier symbols) n ∧
      (a.interpretFrom options position frontier symbols).result =
        .error (.tooManyPaths options.limit (position + n))) ∨
    (a.floodings options frontier symbols = ∅ ∧
      (a.interpretFrom options position frontier symbols).result =
        a.unlimitedFrom options frontier symbols) := by
  induction symbols generalizing frontier position with
  | nil =>
    refine .inr ⟨Set.eq_empty_iff_forall_notMem.mpr fun n hn => ?_, rfl⟩
    exact absurd hn.1 (Nat.not_lt_zero n)
  | cons symbol rest ih =>
    rw [result_interpretFrom_cons]
    by_cases hlimit : options.limit < (a.crossing options frontier symbol).length
    · refine .inl ⟨0, ⟨zero_mem_floodings_cons.mpr hlimit, fun n _ => Nat.zero_le n⟩, ?_⟩
      rw [if_pos hlimit, Nat.add_zero]
    · have hfirst : 0 ∉ a.floodings options frontier (symbol :: rest) :=
        fun h => hlimit (zero_mem_floodings_cons.mp h)
      rw [if_neg hlimit]
      by_cases hdied : a.crossing options frontier symbol = []
      · refine .inr ⟨floodings_cons_eq_empty hfirst ?_, ?_⟩
        · rw [hdied, floodings_of_nil]
        · rw [if_pos hdied, unlimitedFrom, if_pos hdied]
      · rw [if_neg hdied, unlimitedFrom, if_neg hdied]
        rcases @ih (a.crossing options frontier symbol) (position + 1) with
          ⟨n, hn, hresult⟩ | ⟨hnone, hresult⟩
        · refine .inl ⟨n + 1, isLeast_floodings_cons hfirst hn, ?_⟩
          rw [hresult, Nat.add_assoc, Nat.add_comm 1 n]
        · exact .inr ⟨floodings_cons_eq_empty hfirst hnone, hresult⟩

/-! ## The frontiers that are kept -/

/-- A match keeps frontiers that the limit admits, and they are those of the match without a
limit. -/
theorem exists_crossings_of_advanced {symbols : List Symbol} {position place paths : Nat}
    (h : .advanced place paths ∈ (a.interpretFrom options position frontier symbols).events) :
    ∃ n, place = position + n ∧ paths ≤ options.limit ∧
      paths = (a.crossings options frontier (symbols.take (n + 1))).length := by
  induction symbols generalizing frontier position with
  | nil => cases h
  | cons symbol rest ih =>
    rw [interpretFrom, advance_eq] at h
    by_cases hlimit : options.limit < (a.crossing options frontier symbol).length
    · rw [if_pos hlimit] at h
      cases List.mem_singleton.mp h
    · rw [if_neg hlimit] at h
      cases hnext : a.crossing options frontier symbol with
      | nil =>
        rw [hnext] at h
        cases List.mem_singleton.mp h
      | cons path others =>
        rw [hnext] at h hlimit
        rcases List.mem_cons.mp h with hfirst | hrest
        · obtain ⟨rfl, rfl⟩ := Event.advanced.inj hfirst
          refine ⟨0, rfl, Nat.not_lt.mp hlimit, ?_⟩
          rw [← hnext]
          rfl
        · obtain ⟨n, rfl, hle, hlength⟩ := ih hrest
          refine ⟨n + 1, by omega, hle, ?_⟩
          rw [List.take_succ_cons, crossings_cons, hnext]
          exact hlength

/-! ## Matching a line -/

theorem mem_floodings_ofTokens_iff {tokens : List String} {p : Nat} :
    p ∈ a.floodings options [⟨a.start, []⟩] (Symbol.ofTokens tokens) ↔
      p ≤ tokens.length ∧ options.limit < (a.frontierAt options tokens (p + 1)).length := by
  have hlength : (Symbol.ofTokens tokens).length = tokens.length + 1 := by
    rw [Symbol.ofTokens, List.length_append, List.length_map, List.length_singleton]
  show p < (Symbol.ofTokens tokens).length ∧ _ ↔ _
  rw [hlength, Nat.lt_succ_iff, frontierAt]

theorem interpret_flooded_or_unlimited (a : Automaton) (options : MatchOptions)
    (tokens : List String) :
    (∃ p, IsLeast (a.floodings options [⟨a.start, []⟩] (Symbol.ofTokens tokens)) p ∧
      a.interpret options tokens = .error (.tooManyPaths options.limit p)) ∨
    (a.floodings options [⟨a.start, []⟩] (Symbol.ofTokens tokens) = ∅ ∧
      a.interpret options tokens = a.unlimited options tokens) := by
  have h := @interpretFrom_flooded_or_unlimited a options [⟨a.start, []⟩] (Symbol.ofTokens tokens) 0
  simp only [Nat.zero_add] at h
  exact h

/-- A match passes its limit at the first symbol that floods it, and nowhere else. -/
theorem interpret_eq_tooManyPaths_iff {tokens : List String} {limit p : Nat} :
    a.interpret options tokens = .error (.tooManyPaths limit p) ↔ limit = options.limit ∧
      IsLeast (a.floodings options [⟨a.start, []⟩] (Symbol.ofTokens tokens)) p := by
  rcases interpret_flooded_or_unlimited a options tokens with ⟨n, hn, hresult⟩ | ⟨hnone, hresult⟩
  · rw [hresult]
    constructor
    · intro h
      cases h
      exact ⟨rfl, hn⟩
    · rintro ⟨rfl, hp⟩
      rw [hn.unique hp]
  · rw [hresult, hnone]
    constructor
    · exact fun h => absurd ⟨limit, p, h⟩ (not_flooded_unlimitedFrom _)
    · exact fun h => absurd h.2.1 (Set.notMem_empty p)

/-- A match that does not pass its limit is the match without a limit. -/
theorem interpret_eq_unlimited {tokens : List String}
    (h : ¬ Flooded (a.interpret options tokens)) :
    a.interpret options tokens = a.unlimited options tokens := by
  rcases interpret_flooded_or_unlimited a options tokens with ⟨p, _, hresult⟩ | ⟨_, hresult⟩
  · exact absurd ⟨_, _, hresult⟩ h
  · exact hresult

/-- A match passes its limit exactly when some frontier is too long. -/
theorem not_flooded_interpret_iff {tokens : List String} :
    ¬ Flooded (a.interpret options tokens) ↔
      ∀ p ≤ tokens.length, (a.frontierAt options tokens (p + 1)).length ≤ options.limit := by
  rcases interpret_flooded_or_unlimited a options tokens with ⟨n, hn, hresult⟩ | ⟨hnone, hresult⟩
  · constructor
    · exact fun h => absurd ⟨_, _, hresult⟩ h
    · intro h _
      obtain ⟨hle, hlimit⟩ := mem_floodings_ofTokens_iff.mp hn.1
      exact Nat.not_lt.mpr (h n hle) hlimit
  · constructor
    · intro _ p hp
      by_contra hlimit
      have hmem := mem_floodings_ofTokens_iff.mpr ⟨hp, Nat.not_le.mp hlimit⟩
      rw [hnone] at hmem
      exact hmem
    · intro _
      rw [hresult]
      exact not_flooded_unlimitedFrom _

/-- **The limit is exact and changes nothing else.**  A match passes its limit at the first symbol
after which, without a limit, more paths would be alive than the limit admits; if there is no such
symbol, it comes to what it comes to without a limit.  So a larger limit leaves every match as it is
that a smaller one does not stop, and no frontier that is kept is longer than the limit.

The frontiers and the result without a limit, in which all this is stated, are those of every limit
that is large enough. -/
theorem interpret_limit_exact (a : Automaton) (options : MatchOptions) (tokens : List String) :
    (∀ frontier symbol, ∃ bound, ∀ others : MatchOptions,
      others.mergeDuplicatePaths = options.mergeDuplicatePaths → bound ≤ others.maxLivePaths →
      a.advance others frontier symbol = some (a.crossing options frontier symbol)) ∧
    (∃ bound, ∀ others : MatchOptions,
      others.mergeDuplicatePaths = options.mergeDuplicatePaths → bound ≤ others.maxLivePaths →
      a.interpret others tokens = a.unlimited options tokens) ∧
    (∀ limit p, a.interpret options tokens = .error (.tooManyPaths limit p) ↔
      limit = max 1 options.maxLivePaths ∧
      IsLeast {p | p ≤ tokens.length ∧
        max 1 options.maxLivePaths < (a.frontierAt options tokens (p + 1)).length} p) ∧
    ((∀ p ≤ tokens.length,
        (a.frontierAt options tokens (p + 1)).length ≤ max 1 options.maxLivePaths) →
      a.interpret options tokens = a.unlimited options tokens) ∧
    (∀ others : MatchOptions, others.mergeDuplicatePaths = options.mergeDuplicatePaths →
      options.maxLivePaths ≤ others.maxLivePaths → ¬ Flooded (a.interpret options tokens) →
      a.interpret others tokens = a.interpret options tokens) ∧
    (∀ position paths, .advanced position paths ∈ (a.interpretWithEvents options tokens).events →
      paths ≤ max 1 options.maxLivePaths ∧
      paths = (a.frontierAt options tokens (position + 1)).length) := by
  have hset : {p | p ≤ tokens.length ∧
      options.limit < (a.frontierAt options tokens (p + 1)).length} =
        a.floodings options [⟨a.start, []⟩] (Symbol.ofTokens tokens) :=
    Set.ext fun p => mem_floodings_ofTokens_iff.symm
  refine ⟨fun frontier symbol => ?_, ?_, fun limit p => ?_, fun h => ?_, ?_, ?_⟩
  · refine ⟨(a.crossing options frontier symbol).length, fun others hmerge hle => ?_⟩
    rw [advance_eq, crossing_congr hmerge, if_neg (by rw [MatchOptions.limit]; omega)]
  · obtain ⟨bound, hbound⟩ := a.exists_limit_interpret tokens
    refine ⟨bound, fun others hmerge hle => ?_⟩
    rw [interpret_eq_unlimited (hbound others hle), unlimited_congr hmerge]
  · rw [interpret_eq_tooManyPaths_iff, ← hset]
    rfl
  · exact interpret_eq_unlimited (not_flooded_interpret_iff.mpr h)
  · intro others hmerge hle hflooded
    have hwithin := not_flooded_interpret_iff.mp hflooded
    have hothers : ¬ Flooded (a.interpret others tokens) := by
      refine not_flooded_interpret_iff.mpr fun p hp => ?_
      have hfits := hwithin p hp
      rw [frontierAt_congr hmerge]
      rw [MatchOptions.limit] at hfits ⊢
      omega
    rw [interpret_eq_unlimited hflooded, interpret_eq_unlimited hothers, unlimited_congr hmerge]
  · intro position paths h
    obtain ⟨n, rfl, hle, hlength⟩ := exists_crossings_of_advanced h
    rw [Nat.zero_add]
    exact ⟨hle, hlength⟩

/-! ## A table that floods -/

/-- Where no state can be reached for free, the steps are those from the state itself. -/
theorem steps_of_onward_eq_nil {q : Nat} {symbol : Symbol} (h : a.onward ⟨q, []⟩ = []) :
    a.steps q symbol = a.taken symbol ⟨q, []⟩ := by
  unfold steps Search.exploreFrom
  rw [Search.explore_cons_of_fresh _ (by simp)]
  simp only [h, Search.explore_nil, List.append_nil]

/-- A table with two ways across the token `a`, which end alike. -/
def twofold : Automaton where
  states := #[.consume ((Transitions.single (.word "a") 1).insert .any 1), .halt]
  nonempty := by decide
  closed := by decide

theorem steps_twofold : twofold.steps 0 (.token "a") = [⟨[], 1⟩, ⟨[], 1⟩] := by
  rw [steps_of_onward_eq_nil (by decide +kernel)]
  decide +kernel

/-- Two paths are alive after the first token, and a limit of zero, which counts as one, does not
admit them. -/
theorem interpret_limit_exact_twofold :
    (twofold.frontierAt ⟨0, false⟩ ["a"] 1).length = 2 ∧
      twofold.interpret ⟨0, false⟩ ["a"] = .error (.tooManyPaths 1 0) := by
  have hlength : (twofold.frontierAt ⟨0, false⟩ ["a"] 1).length = 2 := by
    show (twofold.crossing ⟨0, false⟩ [⟨0, []⟩] (.token "a")).length = 2
    simp [crossing, MatchOptions.kept, pathsAfter, steps_twofold]
  obtain ⟨_, _, hexact, _⟩ := interpret_limit_exact twofold ⟨0, false⟩ ["a"]
  refine ⟨hlength, (hexact 1 0).mpr ⟨rfl, ⟨Nat.zero_le _, ?_⟩, fun n _ => Nat.zero_le n⟩⟩
  rw [hlength]
  decide

end Automaton
end CommandGrammar
