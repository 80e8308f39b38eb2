import CommandGrammar.Proofs.FirstOccurrences
import CommandGrammar.Proofs.Matching.Agreement
import CommandGrammar.Proofs.Matching.Limit

/-!
# Merging duplicate paths

Paths in the same state with the same stack may be merged after every symbol.  Merging drops all of
them but the first, long before the end of the line, and the question is whether anything else is
lost with them.  Nothing is: at every symbol the merged frontier is what is left of the other one
when only first occurrences count (`crossings_merged`).  So the two matches fail at the same symbol,
with the same failures (`failuresAt_eraseDups`), or both succeed.  At the end of the line all paths
are in the accepting state, so paths are the same where their readings are, and the first
occurrences of paths hold the first occurrences of readings (`unlimited_merged`).

A merged frontier is never the longer one, so a limit that stops the merging match has stopped the
other before.
-/

namespace CommandGrammar

/-- Sets with the same members are equal. -/
theorem OrderedSet.eq_of_mem_iff {α : Type} [Ord α] [Std.TransOrd α] {s t : OrderedSet α}
    (h : ∀ x, x ∈ s ↔ x ∈ t) : s = t := by
  have hirrefl : Std.Irrefl fun x y : α => compare x y = .lt := by
    refine ⟨fun x hx => ?_⟩
    have hself : compare x x = .eq := Std.ReflCmp.compare_self
    rw [hself] at hx
    cases hx
  have hantisymm : Std.Antisymm fun x y : α => compare x y = .lt := by
    refine ⟨fun x y hxy hyx => ?_⟩
    rw [Std.OrientedCmp.gt_of_lt hxy] at hyx
    cases hyx
  exact OrderedSet.ext (s.ascending.eq_of_mem_iff t.ascending h)

namespace Automaton

variable {a : Automaton} {frontier : List Path}

/-! ## Frontiers -/

theorem crossing_merged (limit : Nat) (symbol : Symbol) :
    a.crossing ⟨limit, true⟩ frontier.eraseDups symbol =
      (a.crossing ⟨limit, false⟩ frontier symbol).eraseDups := by
  show (frontier.eraseDups.flatMap (a.pathsAfter symbol)).eraseDups = _
  rw [eraseDups_flatMap_eraseDups]
  rfl

/-- A merged frontier holds the first occurrences of the paths that are alive. -/
theorem crossings_merged (limit : Nat) (symbols : List Symbol) :
    a.crossings ⟨limit, true⟩ frontier.eraseDups symbols =
      (a.crossings ⟨limit, false⟩ frontier symbols).eraseDups := by
  induction symbols generalizing frontier with
  | nil => rfl
  | cons symbol rest ih => rw [crossings_cons, crossings_cons, crossing_merged, ih]

theorem frontierAt_merged (limit : Nat) (tokens : List String) (count : Nat) :
    a.frontierAt ⟨limit, true⟩ tokens count =
      (a.frontierAt ⟨limit, false⟩ tokens count).eraseDups :=
  @crossings_merged a [⟨a.start, []⟩] limit ((Symbol.ofTokens tokens).take count)

/-! ## Results -/

/-- Duplicates fail alike. -/
theorem failuresAt_eraseDups (symbol : Symbol) :
    a.failuresAt frontier.eraseDups symbol = a.failuresAt frontier symbol := by
  refine OrderedSet.eq_of_mem_iff fun failure => ?_
  simp only [failuresAt, OrderedSet.mem_ofList, List.mem_map, List.mem_eraseDups]

/-- Without a limit, merging keeps the first occurrences of the readings, if the paths at the end
are all in one state. -/
theorem unlimitedFrom_merged {limit s : Nat} {symbols : List Symbol}
    (h : ∀ path ∈ a.crossings ⟨limit, false⟩ frontier symbols, path.state = s) :
    a.unlimitedFrom ⟨limit, true⟩ frontier.eraseDups symbols =
      (a.unlimitedFrom ⟨limit, false⟩ frontier symbols).map List.eraseDups := by
  induction symbols generalizing frontier with
  | nil =>
    have hinjective : ∀ path ∈ frontier, ∀ other ∈ frontier,
        path.stack.reading = other.stack.reading → path = other := by
      rintro ⟨q, stack⟩ hpath ⟨r, others⟩ hother heq
      obtain rfl : q = s := h _ hpath
      obtain rfl : r = q := h _ hother
      have hstack : stack = others := List.reverse_inj.mp (Interpretation.mk.inj heq)
      rw [hstack]
    show Except.ok _ = Except.ok _
    rw [eraseDups_map hinjective]
  | cons symbol rest ih =>
    rw [unlimitedFrom, unlimitedFrom, crossing_merged, failuresAt_eraseDups]
    simp only [eraseDups_eq_nil_iff]
    split
    · rfl
    · exact ih h

/-- A match without a limit finds the first occurrences of the readings when it merges. -/
theorem unlimited_merged (limit : Nat) (tokens : List String) :
    a.unlimited ⟨limit, true⟩ tokens =
      (a.unlimited ⟨limit, false⟩ tokens).map List.eraseDups := by
  refine @unlimitedFrom_merged a [⟨a.start, []⟩] limit a.accept _ fun path hpath => ?_
  obtain ⟨before, _, hpath⟩ := mem_crossings_iff.mp hpath
  exact state_of_mem_pathsAlong hpath

/-! ## Under a limit -/

/-- A limit that stops the match that merges stops the other one, and not later. -/
theorem exists_tooManyPaths_of_merged {limit most p : Nat} {tokens : List String}
    (h : a.interpret ⟨limit, true⟩ tokens = .error (.tooManyPaths most p)) :
    ∃ q ≤ p, a.interpret ⟨limit, false⟩ tokens = .error (.tooManyPaths most q) := by
  obtain ⟨rfl, hleast⟩ := interpret_eq_tooManyPaths_iff.mp h
  obtain ⟨hp, hlimit⟩ := mem_floodings_ofTokens_iff.mp hleast.1
  have hflood : p ∈ a.floodings ⟨limit, false⟩ [⟨a.start, []⟩] (Symbol.ofTokens tokens) := by
    refine mem_floodings_ofTokens_iff.mpr ⟨hp, Nat.lt_of_lt_of_le hlimit ?_⟩
    rw [frontierAt_merged]
    exact length_eraseDups_le _
  rcases interpret_flooded_or_unlimited a ⟨limit, false⟩ tokens with
    ⟨q, hq, hresult⟩ | ⟨hnone, _⟩
  · exact ⟨q, hq.2 hflood, hresult⟩
  · rw [hnone] at hflood
    exact hflood.elim

/-- Where the match that does not merge is not stopped, merging keeps first occurrences. -/
theorem interpret_merged {limit : Nat} {tokens : List String}
    (h : ¬ Flooded (a.interpret ⟨limit, false⟩ tokens)) :
    a.interpret ⟨limit, true⟩ tokens =
      (a.interpret ⟨limit, false⟩ tokens).map List.eraseDups := by
  have hmerged : ¬ Flooded (a.interpret ⟨limit, true⟩ tokens) := by
    rintro ⟨most, p, hresult⟩
    obtain ⟨q, _, hq⟩ := exists_tooManyPaths_of_merged hresult
    exact h ⟨most, q, hq⟩
  rw [interpret_eq_unlimited hmerged, interpret_eq_unlimited h, unlimited_merged]

/-- Readings that are found with merging are all different. -/
theorem nodup_of_interpret_merged {limit : Nat} {tokens : List String}
    {found : List Interpretation} (h : a.interpret ⟨limit, true⟩ tokens = .ok found) :
    found.Nodup := by
  have hmerged : ¬ Flooded (a.interpret ⟨limit, true⟩ tokens) := by
    rw [h]
    exact not_flooded_ok found
  rw [interpret_eq_unlimited hmerged, unlimited_merged] at h
  cases hall : a.unlimited ⟨limit, false⟩ tokens with
  | error failure =>
    rw [hall] at h
    cases h
  | ok all =>
    rw [hall] at h
    cases h
    exact nodup_eraseDups all

/-- **Merging only removes repeats.**  As long as no limit stops the match, and a large enough one
does not, the match that merges finds the first occurrence of every reading that the other one
finds, in their order and no reading twice, or both fail with the same failures.  A limit that stops
the match that merges stops the other one too, at the same symbol or before. -/
theorem interpret_merging_exact (a : Automaton) (tokens : List String) :
    (∃ bound, ∀ limit, bound ≤ limit → ¬ Flooded (a.interpret ⟨limit, false⟩ tokens)) ∧
    (∀ limit, ¬ Flooded (a.interpret ⟨limit, false⟩ tokens) →
      a.interpret ⟨limit, true⟩ tokens =
        (a.interpret ⟨limit, false⟩ tokens).map List.eraseDups) ∧
    (∀ limit found, a.interpret ⟨limit, true⟩ tokens = .ok found → found.Nodup) ∧
    (∀ limit most p, a.interpret ⟨limit, true⟩ tokens = .error (.tooManyPaths most p) →
      ∃ q ≤ p, a.interpret ⟨limit, false⟩ tokens = .error (.tooManyPaths most q)) := by
  refine ⟨?_, fun limit h => interpret_merged h, fun limit found h => nodup_of_interpret_merged h,
    fun limit most p h => exists_tooManyPaths_of_merged h⟩
  obtain ⟨bound, hbound⟩ := a.exists_limit_interpret tokens
  exact ⟨bound, fun limit hle => hbound ⟨limit, false⟩ hle⟩

theorem interpret_twofold : twofold.interpret ⟨2, false⟩ ["a"] =
    .ok [⟨[.token "a"]⟩, ⟨[.token "a"]⟩] := by
  have hsteps : twofold.steps 1 .finish = [⟨[], 1⟩] := by
    rw [steps_of_onward_eq_nil (by decide +kernel)]
    decide +kernel
  have hfirst : twofold.crossing ⟨2, false⟩ [⟨0, []⟩] (.token "a") =
      [⟨1, [.token "a"]⟩, ⟨1, [.token "a"]⟩] := by
    simp [crossing, MatchOptions.kept, pathsAfter, steps_twofold, follow, completeAll, Stack.push]
  have hsecond : twofold.crossing ⟨2, false⟩ [⟨1, [.token "a"]⟩, ⟨1, [.token "a"]⟩] .finish =
      [⟨1, [.token "a"]⟩, ⟨1, [.token "a"]⟩] := by
    simp [crossing, MatchOptions.kept, pathsAfter, hsteps, follow, completeAll, Stack.push]
  show (twofold.interpretFrom ⟨2, false⟩ 0 [⟨0, []⟩] [.token "a", .finish]).result = _
  rw [result_interpretFrom_cons, hfirst, if_neg (by decide), if_neg (List.cons_ne_nil _ _),
    result_interpretFrom_cons, hsecond, if_neg (by decide), if_neg (List.cons_ne_nil _ _)]
  rfl

/-- Two ways that end alike are two readings, of which merging keeps one. -/
theorem interpret_merging_exact_twofold :
    ¬ Flooded (twofold.interpret ⟨2, false⟩ ["a"]) ∧
      twofold.interpret ⟨2, false⟩ ["a"] = .ok [⟨[.token "a"]⟩, ⟨[.token "a"]⟩] ∧
      twofold.interpret ⟨2, true⟩ ["a"] = .ok [⟨[.token "a"]⟩] := by
  have hflooded : ¬ Flooded (twofold.interpret ⟨2, false⟩ ["a"]) := by
    rw [interpret_twofold]
    exact not_flooded_ok _
  refine ⟨hflooded, interpret_twofold, ?_⟩
  rw [(interpret_merging_exact twofold ["a"]).2.1 2 hflooded, interpret_twofold]
  rfl

end Automaton
end CommandGrammar
