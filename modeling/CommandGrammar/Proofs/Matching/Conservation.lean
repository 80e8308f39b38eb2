import CommandGrammar.Proofs.Grammar.Meaning
import CommandGrammar.Proofs.Matching.Agreement
import CommandGrammar.Proofs.Matching.Limit

/-!
# Tokens are conserved

A path pushes every token that it reads onto its stack.  A rule that is completed takes the tokens
on top of the stack away and puts them back inside its claim, so the tokens of the stack, those of
the claims included, stay what they were (`Stack.tokens_complete`).  This does not depend on where
the rules stand in the table: a rule may find nothing to claim, and a token may never be claimed.

One symbol therefore adds its own token to a stack and nothing else (`tokens_follow`), a path along
symbols adds theirs (`tokens_of_mem_pathsAlong`), and at every moment of a match every path that is
alive holds the part of the line that has been read.  At the end this is the line
(`interpret_conserves_tokens`).
-/

namespace CommandGrammar

/-- The token of a symbol; the end mark has none. -/
def Symbol.tokens : Symbol → List String
  | .token text => [text]
  | .finish => []

/-- The tokens of a reading: those that are not claimed and those that are, in order. -/
def Interpretation.tokens (reading : Interpretation) : List String :=
  reading.entries.flatMap Entry.tokens

/-! ## Stacks -/

namespace Stack

theorem tokens_reading_cons (entry : Entry) (stack : Stack) :
    (reading (entry :: stack)).tokens = stack.reading.tokens ++ entry.tokens := by
  rw [Interpretation.tokens, reading, List.reverse_cons, List.flatMap_append,
    List.flatMap_singleton]
  rfl

/-- A claim holds the tokens that were on top of the stack, and those given after them. -/
theorem tokens_claimOnto (rule : Rule) (claimed : List String) (stack : Stack) :
    (claimOnto rule claimed stack).reading.tokens = stack.reading.tokens ++ claimed := by
  induction stack generalizing claimed with
  | nil => exact tokens_reading_cons _ _
  | cons top rest ih =>
    cases top with
    | token text =>
      rw [claimOnto, ih, tokens_reading_cons, List.append_assoc]
      rfl
    | claim made => exact tokens_reading_cons _ _

/-- Completing a rule leaves the tokens of a stack as they are. -/
theorem tokens_complete (stack : Stack) (rule : Rule) :
    (stack.complete rule).reading.tokens = stack.reading.tokens := by
  rw [complete, tokens_claimOnto, List.append_nil]

theorem tokens_push (stack : Stack) (symbol : Symbol) :
    (stack.push symbol).reading.tokens = stack.reading.tokens ++ symbol.tokens := by
  cases symbol with
  | token text => exact tokens_reading_cons _ _
  | finish => exact (List.append_nil _).symm

end Stack

namespace Automaton

variable {a : Automaton}

/-! ## Paths -/

theorem flatMap_tokens_ofTokens (tokens : List String) :
    (Symbol.ofTokens tokens).flatMap Symbol.tokens = tokens := by
  induction tokens with
  | nil => rfl
  | cons token rest ih =>
    rw [ofTokens_cons, List.flatMap_cons, ih]
    rfl

theorem flatMap_tokens_take_ofTokens (tokens : List String) (p : Nat) :
    ((Symbol.ofTokens tokens).take p).flatMap Symbol.tokens = tokens.take p := by
  induction tokens generalizing p with
  | nil =>
    cases p with
    | zero => rfl
    | succ p =>
      rw [ofTokens_nil, List.take_succ_cons, List.take_nil, List.take_nil]
      rfl
  | cons token rest ih =>
    cases p with
    | zero => rfl
    | succ p =>
      rw [ofTokens_cons, List.take_succ_cons, List.flatMap_cons, ih]
      rfl

/-- Whatever rules are completed on the way, the tokens of a stack stay as they are. -/
theorem tokens_completeAll (stack : Stack) (emits : List Nat) :
    (a.completeAll stack emits).reading.tokens = stack.reading.tokens := by
  induction emits generalizing stack with
  | nil => rfl
  | cons id rest ih =>
    rw [completeAll, List.foldl_cons, ← completeAll, ih]
    split
    · exact Stack.tokens_complete _ _
    · rfl

/-- A step across a symbol adds the token of the symbol. -/
theorem tokens_follow (symbol : Symbol) (path : Path) (step : Step) :
    (a.follow symbol path step).stack.reading.tokens =
      path.stack.reading.tokens ++ symbol.tokens := by
  rw [follow, Stack.tokens_push, tokens_completeAll]

/-- A path along symbols adds their tokens. -/
theorem tokens_of_mem_pathsAlong {symbols : List Symbol} {path final : Path}
    (h : final ∈ a.pathsAlong symbols path) :
    final.stack.reading.tokens =
      path.stack.reading.tokens ++ symbols.flatMap Symbol.tokens := by
  induction symbols generalizing path with
  | nil =>
    rw [List.mem_singleton.mp h]
    exact (List.append_nil _).symm
  | cons symbol rest ih =>
    obtain ⟨next, hnext, hfinal⟩ := mem_pathsAlong_cons.mp h
    obtain ⟨step, _, rfl⟩ := List.mem_map.mp hnext
    rw [ih hfinal, tokens_follow, List.flatMap_cons, List.append_assoc]

/-- A path that is alive holds the part of the line that has been read. -/
theorem tokens_of_mem_frontierAt {options : MatchOptions} {tokens : List String} {p : Nat}
    {path : Path} (h : path ∈ a.frontierAt options tokens p) :
    path.stack.reading.tokens = tokens.take p := by
  obtain ⟨before, hbefore, hpath⟩ := mem_crossings_iff.mp h
  rw [tokens_of_mem_pathsAlong hpath, List.mem_singleton.mp hbefore, flatMap_tokens_take_ofTokens]
  rfl

/-- **No token is lost, doubled or moved.**  On every table, under all options: after any number of
symbols every path that is alive holds exactly the tokens that have been read, in their order; and
the entries of every reading that is found, each token by itself and each claim with the tokens that
it claims, are together the line. -/
theorem interpret_conserves_tokens (a : Automaton) (options : MatchOptions)
    (tokens : List String) :
    (∀ p, ∀ path ∈ a.frontierAt options tokens p,
      path.stack.reading.entries.flatMap Entry.tokens = tokens.take p) ∧
    (∀ found, a.interpret options tokens = .ok found →
      ∀ reading ∈ found, reading.entries.flatMap Entry.tokens = tokens) := by
  refine ⟨fun p path hpath => tokens_of_mem_frontierAt hpath, fun found h reading hreading => ?_⟩
  obtain ⟨final, hfinal, rfl⟩ := ((interpret_eq_ok h).2 reading).mp hreading
  have htokens := tokens_of_mem_pathsAlong hfinal
  rw [flatMap_tokens_ofTokens] at htokens
  exact htokens

/-! ## A table with rules out of place -/

/-- A table that reads two tokens.  Between them there are two ways: on one of them two rules are
completed, and the second finds nothing to claim; on the other no rule is completed at all. -/
def detour : Automaton where
  states := #[.consume (.single .any 1), .free [2, 4], .emit (.keyword "go") [3],
    .emit (.capture ["X"]) [4], .consume (.single .any 5), .halt]
  nonempty := by decide
  closed := by decide

theorem steps_detour_first : detour.steps 0 (.token "go") = [⟨[], 1⟩] := by
  rw [steps_of_onward_eq_nil (by decide +kernel)]
  decide +kernel

/-- The way on which rules are completed is listed first and found first. -/
theorem steps_detour_second : detour.steps 1 (.token "north") = [⟨[2, 3], 5⟩, ⟨[], 5⟩] := by
  have hfork : detour.onward ⟨1, []⟩ = [⟨2, []⟩, ⟨4, []⟩] := by decide +kernel
  have hfirst : detour.onward ⟨2, []⟩ = [⟨3, [2]⟩] := by decide +kernel
  have hsecond : detour.onward ⟨3, [2]⟩ = [⟨4, [2, 3]⟩] := by decide +kernel
  have hlong : detour.onward ⟨4, [2, 3]⟩ = [] := by decide +kernel
  have hshort : detour.onward ⟨4, []⟩ = [] := by decide +kernel
  unfold steps Search.exploreFrom
  simp only [Search.explore_cons_of_fresh, hfork, hfirst, hsecond, hlong, hshort,
    Search.contains_insert_eq_false_iff, Std.HashSet.contains_empty, Search.explore_nil,
    List.cons_append, List.nil_append, List.append_nil, ne_eq, Visit.mk.injEq, reduceCtorEq,
    and_false, not_false_eq_true, and_self, Nat.reduceEqDiff, false_and]
  decide +kernel

theorem steps_detour_finish : detour.steps 5 .finish = [⟨[], 5⟩] := by
  rw [steps_of_onward_eq_nil (by decide +kernel)]
  decide +kernel

/-- The readings of a line in the table, merged or not. -/
theorem interpret_detour (merge : Bool) : detour.interpret ⟨2, merge⟩ ["go", "north"] =
    .ok [⟨[.claim ⟨.keyword "go", ["go"]⟩, .claim ⟨.capture ["X"], []⟩, .token "north"]⟩,
      ⟨[.token "go", .token "north"]⟩] := by
  have hfirst : detour.crossing ⟨2, merge⟩ [⟨0, []⟩] (.token "go") = [⟨1, [.token "go"]⟩] := by
    simp only [crossing, pathsAfter, List.flatMap_singleton, steps_detour_first]
    cases merge <;> decide +kernel
  have hsecond : detour.crossing ⟨2, merge⟩ [⟨1, [.token "go"]⟩] (.token "north") =
      [⟨5, [.token "north", .claim ⟨.capture ["X"], []⟩, .claim ⟨.keyword "go", ["go"]⟩]⟩,
        ⟨5, [.token "north", .token "go"]⟩] := by
    simp only [crossing, pathsAfter, List.flatMap_singleton, steps_detour_second]
    cases merge <;> decide +kernel
  have hthird : detour.crossing ⟨2, merge⟩
      [⟨5, [.token "north", .claim ⟨.capture ["X"], []⟩, .claim ⟨.keyword "go", ["go"]⟩]⟩,
        ⟨5, [.token "north", .token "go"]⟩] .finish =
      [⟨5, [.token "north", .claim ⟨.capture ["X"], []⟩, .claim ⟨.keyword "go", ["go"]⟩]⟩,
        ⟨5, [.token "north", .token "go"]⟩] := by
    simp only [crossing, pathsAfter, List.flatMap_cons, List.flatMap_nil, steps_detour_finish]
    cases merge <;> decide +kernel
  have hwithin : MatchOptions.limit ⟨2, merge⟩ = 2 := rfl
  show (detour.interpretFrom ⟨2, merge⟩ 0 [⟨0, []⟩]
    [.token "go", .token "north", .finish]).result = _
  rw [result_interpretFrom_cons, hfirst, hwithin, if_neg (by decide), if_neg (List.cons_ne_nil _ _),
    result_interpretFrom_cons, hsecond, hwithin, if_neg (by decide), if_neg (List.cons_ne_nil _ _),
    result_interpretFrom_cons, hthird, hwithin, if_neg (by decide), if_neg (List.cons_ne_nil _ _)]
  rfl

/-- A line of two tokens is found in full in both readings, in the one that claims nothing and in
the one with an empty claim. -/
theorem interpret_conserves_tokens_detour :
    detour.interpret ⟨2, true⟩ ["go", "north"] =
      .ok [⟨[.claim ⟨.keyword "go", ["go"]⟩, .claim ⟨.capture ["X"], []⟩, .token "north"]⟩,
        ⟨[.token "go", .token "north"]⟩] ∧
    ∀ reading ∈ [(⟨[.claim ⟨.keyword "go", ["go"]⟩, .claim ⟨.capture ["X"], []⟩,
        .token "north"]⟩ : Interpretation), ⟨[.token "go", .token "north"]⟩],
      reading.entries.flatMap Entry.tokens = ["go", "north"] :=
  ⟨interpret_detour true, (interpret_conserves_tokens detour _ _).2 _ (interpret_detour true)⟩

end Automaton
end CommandGrammar
