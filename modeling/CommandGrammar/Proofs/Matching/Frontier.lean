import CommandGrammar.Matching.Frontier
import CommandGrammar.Proofs.FirstOccurrences

/-!
# The frontier without its limit

`Automaton.advance` gathers the next frontier path by path and gives up as soon as the limit is
passed.  What it gathers does not depend on the limit: it is `Automaton.crossing`, all paths after
the symbol, or the first of each kind if duplicates are merged.  `advance_eq` says so, and that the
limit is passed exactly when this list is too long.  The loop keeps the invariant
`Gathering.Holds`, which relates a gathering to the list of the paths that it has seen.

A match is a sequence of such crossings.  Where it ends depends on the paths alone:
`Automaton.pathsAlong` follows one path along all symbols, and

* `interpretFrom_eq_ok`: readings that are found are those of the paths along the line, and there
  is at least one;
* `interpretFrom_eq_noMatch`: if the match fails for want of a way, there is no path along the line;
* `exists_limit_interpretFrom`: if the limit is large enough, it is not passed.
-/

namespace CommandGrammar

/-- The paths that are kept of those that are found: all, or the first of each kind. -/
def MatchOptions.kept (options : MatchOptions) (paths : List Path) : List Path :=
  if options.mergeDuplicatePaths then paths.eraseDups else paths

namespace MatchOptions

variable {options : MatchOptions}

@[simp] theorem kept_nil : options.kept [] = [] := by
  unfold kept
  split <;> rfl

theorem mem_kept_iff {paths : List Path} {path : Path} :
    path ∈ options.kept paths ↔ path ∈ paths := by
  unfold kept
  split
  · exact List.mem_eraseDups
  · rfl

theorem kept_of_nodup {paths : List Path} (h : paths.Nodup) : options.kept paths = paths := by
  unfold kept
  split
  · exact eraseDups_of_nodup h
  · rfl

theorem length_kept_le (paths : List Path) : (options.kept paths).length ≤ paths.length := by
  unfold kept
  split
  · exact length_eraseDups_le paths
  · exact Nat.le_refl _

/-- A path that is found last is kept unless it is merged with an earlier one. -/
theorem kept_append_singleton {paths : List Path} {path : Path} :
    options.kept (paths ++ [path]) =
      if options.mergeDuplicatePaths = true ∧ path ∈ paths then options.kept paths
      else options.kept paths ++ [path] := by
  unfold kept
  by_cases hmerge : options.mergeDuplicatePaths = true
  · simp only [hmerge, if_true, true_and, eraseDups_append_singleton]
  · simp [hmerge]

theorem length_kept_le_append (paths others : List Path) :
    (options.kept paths).length ≤ (options.kept (paths ++ others)).length := by
  unfold kept
  split
  · rw [List.eraseDups_append, List.length_append]
    exact Nat.le_add_right ..
  · rw [List.length_append]
    exact Nat.le_add_right ..

end MatchOptions

/-! ## Gathering a frontier -/

namespace Gathering

variable {options : MatchOptions}

/-- A gathering that has seen the given paths and has not passed the limit. -/
structure Holds (options : MatchOptions) (found : List Path) (gathering : Gathering) : Prop where
  paths_eq : gathering.paths.toList = options.kept found
  seen_iff : ∀ path, gathering.seen.contains path = true ↔ path ∈ found
  within : (options.kept found).length ≤ options.limit

theorem holds_start : Holds options [] start where
  paths_eq := by rw [MatchOptions.kept_nil]; rfl
  seen_iff path := by simp [start]
  within := by simp

/-- Adding a path keeps the invariant, unless the limit is passed. -/
theorem Holds.add {found : List Path} {gathering : Gathering} (h : Holds options found gathering)
    (path : Path) :
    (options.limit < (options.kept (found ++ [path])).length ∧
      Gathering.add options gathering path = none) ∨
    ∃ next, Gathering.add options gathering path = some next ∧
      Holds options (found ++ [path]) next := by
  have hmem := h.seen_iff path
  have hsize : gathering.paths.size = (options.kept found).length := by
    rw [← h.paths_eq, Array.length_toList]
  unfold Gathering.add
  by_cases hdup : options.mergeDuplicatePaths = true ∧ path ∈ found
  · have hkept : options.kept (found ++ [path]) = options.kept found := by
      rw [MatchOptions.kept_append_singleton, if_pos hdup]
    refine .inr ⟨gathering, ?_, ?_, ?_, ?_⟩
    · rw [if_pos (by rw [Bool.and_eq_true]; exact ⟨hdup.1, hmem.mpr hdup.2⟩)]
    · rw [hkept, h.paths_eq]
    · intro other
      rw [h.seen_iff, List.mem_append, List.mem_singleton]
      constructor
      · exact .inl
      · rintro (hother | rfl)
        · exact hother
        · exact hdup.2
    · rw [hkept]
      exact h.within
  · have hkept : options.kept (found ++ [path]) = options.kept found ++ [path] := by
      rw [MatchOptions.kept_append_singleton, if_neg hdup]
    rw [if_neg (by rw [Bool.and_eq_true, hmem]; exact hdup), hkept, List.length_append,
      List.length_singleton, ← hsize]
    simp only [Array.size_push]
    by_cases hlimit : options.limit < gathering.paths.size + 1
    · exact .inl ⟨hlimit, if_pos hlimit⟩
    · refine .inr ⟨_, if_neg hlimit, ?_, ?_, ?_⟩
      · rw [hkept, ← h.paths_eq, Array.toList_push]
      · intro other
        rw [Std.HashSet.contains_insert, Bool.or_eq_true, beq_iff_eq, h.seen_iff, List.mem_append,
          List.mem_singleton, or_comm, eq_comm]
      · rw [hkept, List.length_append, List.length_singleton, ← hsize]
        omega

/-- Gathering a list of paths keeps the first of each kind, or all, unless they are too many. -/
theorem Holds.foldlM_add {found : List Path} {gathering : Gathering}
    (h : Holds options found gathering) (paths : List Path) :
    (paths.foldlM (Gathering.add options) gathering).map (fun g => g.paths.toList) =
      if options.limit < (options.kept (found ++ paths)).length then none
      else some (options.kept (found ++ paths)) := by
  induction paths generalizing found gathering with
  | nil =>
    rw [List.append_nil, if_neg (Nat.not_lt.mpr h.within), ← h.paths_eq]
    rfl
  | cons path rest ih =>
    rw [List.foldlM_cons]
    have hsplit : found ++ path :: rest = found ++ [path] ++ rest := by
      rw [List.append_assoc]
      rfl
    rcases h.add path with ⟨hlimit, hnone⟩ | ⟨next, hnext, hholds⟩
    · have hmore := @MatchOptions.length_kept_le_append options (found ++ [path]) rest
      rw [hnone, hsplit, if_pos (Nat.lt_of_lt_of_le hlimit hmore)]
      rfl
    · rw [hnext, hsplit, ← ih hholds]
      rfl

end Gathering

namespace Automaton

variable {a : Automaton} {options : MatchOptions} {frontier : List Path}

/-- The frontier after a symbol, when no limit is in force. -/
def crossing (a : Automaton) (options : MatchOptions) (frontier : List Path) (symbol : Symbol) :
    List Path :=
  options.kept (frontier.flatMap (a.pathsAfter symbol))

theorem mem_crossing_iff {symbol : Symbol} {path : Path} :
    path ∈ a.crossing options frontier symbol ↔
      ∃ before ∈ frontier, path ∈ a.pathsAfter symbol before := by
  rw [crossing, MatchOptions.mem_kept_iff, List.mem_flatMap]

theorem foldlM_foldlM_add (symbol : Symbol) (gathering : Gathering) :
    frontier.foldlM (fun g path => (a.pathsAfter symbol path).foldlM (Gathering.add options) g)
        gathering =
      (frontier.flatMap (a.pathsAfter symbol)).foldlM (Gathering.add options) gathering := by
  induction frontier generalizing gathering with
  | nil => rfl
  | cons path rest ih =>
    rw [List.foldlM_cons, List.flatMap_cons, List.foldlM_append]
    congr 1
    exact funext ih

/-- The frontier is taken across a symbol as a whole, unless it becomes too long. -/
theorem advance_eq (symbol : Symbol) :
    a.advance options frontier symbol =
      if options.limit < (a.crossing options frontier symbol).length then none
      else some (a.crossing options frontier symbol) := by
  have h := (@Gathering.holds_start options).foldlM_add (frontier.flatMap (a.pathsAfter symbol))
  rw [List.nil_append] at h
  rw [crossing, ← h, advance, foldlM_foldlM_add]
  cases (frontier.flatMap (a.pathsAfter symbol)).foldlM (Gathering.add options) .start with
  | none => rfl
  | some gathering => rfl

/-! ## A match -/

/-- A match, one symbol at a time: what it comes to, and what is reported on the way. -/
theorem interpretFrom_cons {position : Nat} {symbol : Symbol} {rest : List Symbol} :
    a.interpretFrom options position frontier (symbol :: rest) =
      if options.limit < (a.crossing options frontier symbol).length then
        ⟨.error (.tooManyPaths options.limit position), [.flooded options.limit position]⟩
      else if a.crossing options frontier symbol = [] then
        ⟨.error (.noMatch (a.failuresAt frontier symbol)),
          [.died position frontier.length (a.failuresAt frontier symbol).size]⟩
      else
        let next := a.crossing options frontier symbol
        let outcome := a.interpretFrom options (position + 1) next rest
        ⟨outcome.result, .advanced position next.length :: outcome.events⟩ := by
  rw [interpretFrom, advance_eq]
  by_cases hlimit : options.limit < (a.crossing options frontier symbol).length
  · rw [if_pos hlimit, if_pos hlimit]
  · rw [if_neg hlimit, if_neg hlimit]
    cases hnext : a.crossing options frontier symbol with
    | nil => rfl
    | cons path others => rfl

/-- What a match comes to, one symbol at a time. -/
theorem result_interpretFrom_cons {position : Nat} {symbol : Symbol} {rest : List Symbol} :
    (a.interpretFrom options position frontier (symbol :: rest)).result =
      if options.limit < (a.crossing options frontier symbol).length then
        .error (.tooManyPaths options.limit position)
      else if a.crossing options frontier symbol = [] then
        .error (.noMatch (a.failuresAt frontier symbol))
      else
        (a.interpretFrom options (position + 1) (a.crossing options frontier symbol) rest).result := by
  rw [interpretFrom_cons, apply_ite Outcome.result, apply_ite Outcome.result]

/-- The paths to which a path leads along the symbols. -/
def pathsAlong (a : Automaton) : List Symbol → Path → List Path
  | [], path => [path]
  | symbol :: rest, path => (a.pathsAfter symbol path).flatMap (a.pathsAlong rest)

theorem mem_pathsAlong_cons {symbol : Symbol} {rest : List Symbol} {path final : Path} :
    final ∈ a.pathsAlong (symbol :: rest) path ↔
      ∃ next ∈ a.pathsAfter symbol path, final ∈ a.pathsAlong rest next := by
  rw [pathsAlong, List.mem_flatMap]

/-- The readings that are found are those of the paths along the line. -/
theorem interpretFrom_eq_ok {symbols : List Symbol} {position : Nat}
    {readings : List Interpretation} (hfrontier : frontier ≠ [])
    (h : (a.interpretFrom options position frontier symbols).result = .ok readings) :
    readings ≠ [] ∧ ∀ reading, reading ∈ readings ↔
      ∃ path ∈ frontier, ∃ final ∈ a.pathsAlong symbols path, final.stack.reading = reading := by
  induction symbols generalizing frontier position with
  | nil =>
    have hreadings : frontier.map (fun path => path.stack.reading) = readings := Except.ok.inj h
    rw [← hreadings]
    refine ⟨fun hnil => hfrontier (List.map_eq_nil_iff.mp hnil), fun reading => ?_⟩
    rw [List.mem_map]
    simp only [pathsAlong, List.mem_singleton, exists_eq_left]
  | cons symbol rest ih =>
    rw [result_interpretFrom_cons] at h
    split at h
    · cases h
    · split at h
      · cases h
      · next hne =>
        obtain ⟨hreadings, hmem⟩ := ih hne h
        refine ⟨hreadings, fun reading => ?_⟩
        rw [hmem]
        simp only [mem_crossing_iff, mem_pathsAlong_cons]
        constructor
        · rintro ⟨next, ⟨path, hpath, hnext⟩, final, hfinal, hreading⟩
          exact ⟨path, hpath, final, ⟨next, hnext, hfinal⟩, hreading⟩
        · rintro ⟨path, hpath, final, ⟨next, hnext, hfinal⟩, hreading⟩
          exact ⟨next, ⟨path, hpath, hnext⟩, final, hfinal, hreading⟩

/-- A match that fails for want of a way has no path along the line. -/
theorem interpretFrom_eq_noMatch {symbols : List Symbol} {position : Nat}
    {failures : OrderedSet Failure}
    (h : (a.interpretFrom options position frontier symbols).result = .error (.noMatch failures)) :
    ∀ path ∈ frontier, a.pathsAlong symbols path = [] := by
  induction symbols generalizing frontier position with
  | nil => cases h
  | cons symbol rest ih =>
    intro path hpath
    rw [pathsAlong, List.flatMap_eq_nil_iff]
    intro next hnext
    have hcross : next ∈ a.crossing options frontier symbol :=
      mem_crossing_iff.mpr ⟨path, hpath, hnext⟩
    rw [result_interpretFrom_cons] at h
    split at h
    · cases h
    · split at h
      · next hnil =>
        rw [hnil] at hcross
        cases hcross
      · exact ih h next hcross

/-- Whether a match has passed its limit. -/
def Flooded (result : Except MatchError (List Interpretation)) : Prop :=
  ∃ limit position, result = .error (.tooManyPaths limit position)

theorem not_flooded_ok (found : List Interpretation) : ¬ Flooded (.ok found) := by
  rintro ⟨_, _, h⟩
  cases h

theorem not_flooded_noMatch (failures : OrderedSet Failure) :
    ¬ Flooded (.error (.noMatch failures)) := by
  rintro ⟨_, _, h⟩
  cases h

theorem kept_congr {options others : MatchOptions}
    (h : options.mergeDuplicatePaths = others.mergeDuplicatePaths) (paths : List Path) :
    options.kept paths = others.kept paths := by
  unfold MatchOptions.kept
  rw [h]

/-- A limit that is large enough is not passed. -/
theorem exists_limit_interpretFrom (a : Automaton) (merge : Bool) (frontier : List Path)
    (symbols : List Symbol) : ∃ bound, ∀ options position, options.mergeDuplicatePaths = merge →
      bound ≤ options.maxLivePaths →
      ¬ Flooded (a.interpretFrom options position frontier symbols).result := by
  induction symbols generalizing frontier with
  | nil => exact ⟨0, fun options position _ _ => not_flooded_ok _⟩
  | cons symbol rest ih =>
    -- the next frontier depends on whether duplicates are merged, but not on the limit
    have hnext : ∀ options : MatchOptions, options.mergeDuplicatePaths = merge →
        a.crossing options frontier symbol = a.crossing ⟨0, merge⟩ frontier symbol :=
      fun options hmerge => kept_congr hmerge _
    obtain ⟨bound, hbound⟩ := ih (a.crossing ⟨0, merge⟩ frontier symbol)
    refine ⟨max bound (a.crossing ⟨0, merge⟩ frontier symbol).length,
      fun options position hmerge hle => ?_⟩
    have hlimit : ¬ options.limit < (a.crossing options frontier symbol).length := by
      rw [hnext options hmerge, MatchOptions.limit]
      omega
    rw [result_interpretFrom_cons, if_neg hlimit]
    split
    · exact not_flooded_noMatch _
    · rw [hnext options hmerge]
      exact hbound options (position + 1) hmerge (Nat.le_trans (Nat.le_max_left ..) hle)

/-- A limit that is large enough is not passed, whether or not duplicates are merged. -/
theorem exists_limit_interpret (a : Automaton) (tokens : List String) :
    ∃ bound, ∀ options : MatchOptions, bound ≤ options.maxLivePaths →
      ¬ Flooded (a.interpret options tokens) := by
  obtain ⟨apart, hapart⟩ :=
    exists_limit_interpretFrom a false [⟨a.start, []⟩] (Symbol.ofTokens tokens)
  obtain ⟨merged, hmerged⟩ :=
    exists_limit_interpretFrom a true [⟨a.start, []⟩] (Symbol.ofTokens tokens)
  refine ⟨max apart merged, fun options hle => ?_⟩
  by_cases hmerge : options.mergeDuplicatePaths = true
  · exact hmerged options 0 hmerge (Nat.le_trans (Nat.le_max_right ..) hle)
  · exact hapart options 0 (Bool.not_eq_true _ ▸ hmerge) (Nat.le_trans (Nat.le_max_left ..) hle)

end Automaton

end CommandGrammar
