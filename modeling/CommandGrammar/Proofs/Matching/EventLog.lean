import CommandGrammar.Proofs.Matching.Limit

/-!
# The log of a match

A match reports every symbol that its frontier has crossed, with the number of paths that are alive
after it, and one thing more if it fails: that all paths died at a symbol, or that they became too
many there.  Whoever reads the log has not seen the match.  What the log says must therefore agree
with the frontiers, with the limit and with the result.

A log consists of counts, one for each symbol that was crossed, and of what is reported at the end.
`IsLog` says which counts and which end fit a match that goes on from any frontier at any position.
There are three ways in which a match can end at a symbol or after the last one (`isLog_nil`,
`isLog_of_flooded`, `isLog_of_died`), and a symbol that is crossed puts one count before the log of
the rest (`IsLog.cross`).  So every match has a log (`exists_isLog`), by induction over the symbols.
-/

namespace CommandGrammar

namespace OrderedSet

variable {α : Type} [Ord α]

theorem length_place_le (a : α) (l : List α) : (place a l).length ≤ l.length + 1 := by
  induction l with
  | nil => exact Nat.le_refl 1
  | cons b rest ih =>
    unfold place
    split
    · exact Nat.le_refl _
    · exact Nat.le_succ _
    · exact Nat.succ_le_succ ih

variable [Std.TransOrd α] [Std.LawfulEqOrd α]

theorem size_ofList_le (l : List α) : (ofList l).size ≤ l.length := by
  induction l with
  | nil => exact Nat.le_refl 0
  | cons a rest ih => exact Nat.le_trans (length_place_le a _) (Nat.succ_le_succ ih)

theorem size_ofList_pos {l : List α} (h : l ≠ []) : 1 ≤ (ofList l).size := by
  obtain ⟨a, ha⟩ := List.exists_mem_of_ne_nil l h
  have hmem : a ∈ (ofList l).toList := mem_ofList.mpr ha
  exact List.length_pos_of_mem hmem

end OrderedSet

namespace Automaton

variable {a : Automaton} {options : MatchOptions} {frontier : List Path}

/-! ## Logs -/

/-- What is reported at the end of a match agrees with its result: `paths` paths were alive before
the symbol at `position`, and this is the symbol that was not crossed. -/
def Concludes (position paths : Nat) (ending : List Event) :
    Except MatchError (List Interpretation) → Prop
  | .ok readings => ending = [] ∧ paths = readings.length
  | .error (.noMatch failures) =>
    ending = [.died position paths failures.size] ∧ 1 ≤ failures.size ∧ failures.size ≤ paths
  | .error (.tooManyPaths limit place) => ending = [.flooded limit place] ∧ place = position

/-- A match from a frontier on is described by the counts and by what is reported at the end. -/
structure IsLog (a : Automaton) (options : MatchOptions) (position : Nat) (frontier : List Path)
    (symbols : List Symbol) (counts : List Nat) (ending : List Event) : Prop where
  events_eq : (a.interpretFrom options position frontier symbols).events =
    (counts.mapIdx fun n paths => .advanced (position + n) paths) ++ ending
  counts_eq : counts = (List.range counts.length).map fun n =>
    (a.crossings options frontier (symbols.take (n + 1))).length
  within : ∀ paths ∈ counts, 1 ≤ paths ∧ paths ≤ options.limit
  complete : ∀ readings,
    (a.interpretFrom options position frontier symbols).result = .ok readings →
      counts.length = symbols.length
  concludes : Concludes (position + counts.length) (counts.getLastD frontier.length) ending
    (a.interpretFrom options position frontier symbols).result

section

variable {position : Nat} {symbol : Symbol} {rest : List Symbol}

/-- A match that has come to the end of the line has nothing more to report. -/
theorem isLog_nil : IsLog a options position frontier [] [] [] where
  events_eq := rfl
  counts_eq := rfl
  within _ hpaths := absurd hpaths List.not_mem_nil
  complete _ _ := rfl
  concludes := ⟨rfl, (List.length_map _).symm⟩

/-- A match that passes its limit reports that, and no count. -/
theorem isLog_of_flooded (h : options.limit < (a.crossing options frontier symbol).length) :
    IsLog a options position frontier (symbol :: rest) []
      [.flooded options.limit position] := by
  have hmatch : a.interpretFrom options position frontier (symbol :: rest) =
      ⟨.error (.tooManyPaths options.limit position), [.flooded options.limit position]⟩ := by
    rw [interpretFrom_cons, if_pos h]
  refine ⟨?_, rfl, fun _ hpaths => absurd hpaths List.not_mem_nil, fun readings hok => ?_, ?_⟩
  · rw [hmatch]
    rfl
  · rw [hmatch] at hok
    cases hok
  · rw [hmatch]
    exact ⟨rfl, rfl⟩

/-- A match that dies reports that, with the failures of the paths that were alive: at least one,
and no more than one for each path. -/
theorem isLog_of_died (hfrontier : frontier ≠ []) (h : a.crossing options frontier symbol = []) :
    IsLog a options position frontier (symbol :: rest) []
      [.died position frontier.length (a.failuresAt frontier symbol).size] := by
  have hmatch : a.interpretFrom options position frontier (symbol :: rest) =
      ⟨.error (.noMatch (a.failuresAt frontier symbol)),
        [.died position frontier.length (a.failuresAt frontier symbol).size]⟩ := by
    rw [interpretFrom_cons, if_neg (by rw [h]; exact Nat.not_lt_zero _), if_pos h]
  have hsome : 1 ≤ (a.failuresAt frontier symbol).size :=
    OrderedSet.size_ofList_pos fun hnil => hfrontier (List.map_eq_nil_iff.mp hnil)
  have hfew : (a.failuresAt frontier symbol).size ≤ frontier.length :=
    (OrderedSet.size_ofList_le _).trans_eq (List.length_map _)
  refine ⟨?_, rfl, fun _ hpaths => absurd hpaths List.not_mem_nil, fun readings hok => ?_, ?_⟩
  · rw [hmatch]
    rfl
  · rw [hmatch] at hok
    cases hok
  · rw [hmatch]
    exact ⟨rfl, hsome, hfew⟩

/-- A symbol that is crossed puts the number of paths after it before the log of the rest. -/
theorem IsLog.cross {counts : List Nat} {ending : List Event}
    (hlimit : ¬ options.limit < (a.crossing options frontier symbol).length)
    (halive : a.crossing options frontier symbol ≠ [])
    (h : IsLog a options (position + 1) (a.crossing options frontier symbol) rest counts ending) :
    IsLog a options position frontier (symbol :: rest)
      ((a.crossing options frontier symbol).length :: counts) ending := by
  have hmatch := @interpretFrom_cons a options frontier position symbol rest
  rw [if_neg hlimit, if_neg halive] at hmatch
  refine ⟨?_, ?_, ?_, fun readings hok => ?_, ?_⟩
  · have hshift : ∀ n, position + 1 + n = position + (n + 1) := by omega
    rw [hmatch, List.mapIdx_cons, List.cons_append]
    simp only [h.events_eq, hshift, Nat.add_zero]
  · rw [List.length_cons, List.range_succ_eq_map, List.map_cons, List.map_map]
    exact congrArg (_ :: ·) h.counts_eq
  · intro paths hpaths
    rcases List.mem_cons.mp hpaths with rfl | hpaths
    · exact ⟨List.length_pos_iff.mpr halive, Nat.not_lt.mp hlimit⟩
    · exact h.within paths hpaths
  · rw [hmatch] at hok
    rw [List.length_cons, List.length_cons, h.complete readings hok]
  · have hplace : position + (counts.length + 1) = position + 1 + counts.length := by omega
    rw [hmatch, List.length_cons, List.getLastD_cons, hplace]
    exact h.concludes

end

/-- Every match from a frontier that is alive has a log. -/
theorem exists_isLog (symbols : List Symbol) (position : Nat) (hfrontier : frontier ≠ []) :
    ∃ counts ending, IsLog a options position frontier symbols counts ending := by
  induction symbols generalizing frontier position with
  | nil => exact ⟨[], [], isLog_nil⟩
  | cons symbol rest ih =>
    by_cases hlimit : options.limit < (a.crossing options frontier symbol).length
    · exact ⟨[], _, isLog_of_flooded hlimit⟩
    · by_cases hdied : a.crossing options frontier symbol = []
      · exact ⟨[], _, isLog_of_died hfrontier hdied⟩
      · obtain ⟨counts, ending, hlog⟩ := ih (position + 1) hdied
        exact ⟨_, ending, hlog.cross hlimit hdied⟩

/-! ## The log of a line -/

/-- **The log describes the match.**  On every table, under all options: the log of a match begins
with the symbols that were crossed, one by one from the first, each with the number of paths that
are alive after it, which is at least one and within the limit.  What follows depends on the result.
If readings are found, nothing follows, all tokens and the end mark were crossed, and the last
number is that of the readings.  If no way leads on, it is said once that the paths died, at the
next symbol, as many as there were after the last one (one at the beginning of a line), with the
number of failures in the result, which is at least one and at most that of the paths.  If the paths
are too many, it is said once, with the limit and the position that are in the result, and this is
again the position of the next symbol. -/
theorem events_describe_match (a : Automaton) (options : MatchOptions) (tokens : List String) :
    ∃ counts : List Nat,
      (∀ paths ∈ counts, 1 ≤ paths ∧ paths ≤ max 1 options.maxLivePaths) ∧
      counts = ((List.range counts.length).map fun n =>
        (a.frontierAt options tokens (n + 1)).length) ∧
      match a.interpretWithEvents options tokens with
      | ⟨.ok readings, events⟩ =>
        events = counts.mapIdx .advanced ∧ counts.length = tokens.length + 1 ∧
          counts.getLast? = some readings.length
      | ⟨.error (.noMatch failures), events⟩ =>
        events = counts.mapIdx .advanced ++
            [.died counts.length (counts.getLastD 1) failures.size] ∧
          1 ≤ failures.size ∧ failures.size ≤ counts.getLastD 1
      | ⟨.error (.tooManyPaths limit position), events⟩ =>
        events = counts.mapIdx .advanced ++ [.flooded limit position] ∧
          position = counts.length := by
  obtain ⟨counts, ending, hevents, hcounts, hwithin, hcomplete, hconcludes⟩ :=
    @exists_isLog a options [⟨a.start, []⟩] (Symbol.ofTokens tokens) 0 (List.cons_ne_nil _ _)
  simp only [Nat.zero_add, List.length_singleton] at hevents hconcludes
  refine ⟨counts, hwithin, hcounts, ?_⟩
  unfold interpretWithEvents
  generalize a.interpretFrom options 0 [⟨a.start, []⟩] (Symbol.ofTokens tokens) = outcome
    at hevents hcomplete hconcludes ⊢
  obtain ⟨result, events⟩ := outcome
  match result, hcomplete, hconcludes with
  | .ok readings, hcomplete, ⟨hending, hlast⟩ =>
    have hlength : counts.length = tokens.length + 1 := by
      rw [hcomplete readings rfl, Symbol.ofTokens, List.length_append, List.length_map,
        List.length_singleton]
    have hcrossed : counts ≠ [] := List.length_pos_iff.mp (by omega)
    rw [List.getLastD_eq_getLast?, List.getLast?_eq_some_getLast hcrossed] at hlast
    rw [hending, List.append_nil] at hevents
    exact ⟨hevents, hlength, by rw [List.getLast?_eq_some_getLast hcrossed, ← hlast]; rfl⟩
  | .error (.noMatch failures), _, ⟨hending, hsize⟩ =>
    rw [hending] at hevents
    exact ⟨hevents, hsize⟩
  | .error (.tooManyPaths limit position), _, ⟨hending, hposition⟩ =>
    rw [hending] at hevents
    exact ⟨hevents, hposition⟩

end Automaton
end CommandGrammar
