import CommandGrammar.Proofs.Grammar.Meaning
import CommandGrammar.Proofs.Matching.Agreement

/-!
# Recognition

The lines that an automaton accepts are what its traces read: `language_eq` spells the traces in
tokens.  Whether a trace could be followed by the search, which does not leave an emit state twice
in one step, does not matter for the tokens that are read.

With the traces of composed automata this gives the languages of the operations
(`language_of_operations`): putting automata together works on their languages as the operation says,
and the automaton of a grammar accepts exactly the lines of the grammar.
-/

namespace CommandGrammar

open scoped Computability

namespace Stack

/-- A stack after an action: a token is pushed, a rule is completed. -/
def perform (stack : Stack) : Action → Stack
  | .read text => .token text :: stack
  | .emit rule => stack.complete rule

end Stack

namespace Automaton

variable {a : Automaton}

/-! ## Steps on a stack -/

theorem flatMap_tokens_emitted (emits : List Nat) :
    (a.emitted emits).flatMap Action.tokens = [] := by
  rw [List.flatMap_eq_nil_iff]
  intro action haction
  obtain ⟨id, _, h⟩ := List.mem_filterMap.mp haction
  split at h
  · cases h
    rfl
  · cases h

/-- Completing the rules of emit states is doing what is observed of them. -/
theorem completeAll_eq_foldl_perform (stack : Stack) (emits : List Nat) :
    a.completeAll stack emits = (a.emitted emits).foldl Stack.perform stack := by
  rw [completeAll, emitted, List.foldl_filterMap]
  congr 1
  funext stack id
  cases hstate : a.state? id with
  | none => rfl
  | some state => cases state <;> rfl

/-- A step is what its emit states do, and then its symbol. -/
theorem follow_token {text : String} {path : Path} {step : Step} :
    a.follow (.token text) path step =
      ⟨step.target, (a.emitted step.emits ++ [Action.read text]).foldl Stack.perform path.stack⟩ := by
  rw [follow, completeAll_eq_foldl_perform, List.foldl_append]
  rfl

theorem follow_finish {path : Path} {step : Step} :
    a.follow .finish path step =
      ⟨step.target, (a.emitted step.emits).foldl Stack.perform path.stack⟩ := by
  rw [follow, completeAll_eq_foldl_perform]
  rfl

/-! ## Paths and completions -/

/-- A path along a line performs a completion that reads the line. -/
theorem exists_completes_of_mem_pathsAlong {tokens : List String} {path final : Path}
    (h : final ∈ a.pathsAlong (Symbol.ofTokens tokens) path) :
    ∃ w, Completes a.states path.state w ∧ w.flatMap Action.tokens = tokens ∧
      final.stack = w.foldl Stack.perform path.stack := by
  induction tokens generalizing path with
  | nil =>
    rw [ofTokens_nil, mem_pathsAlong_cons] at h
    obtain ⟨next, hnext, hfinal⟩ := h
    obtain ⟨step, hstep, rfl⟩ := List.mem_map.mp hnext
    obtain ⟨r, emits, extra, hpath, _, hends, hemits⟩ := mem_steps_iff.mp hstep
    refine ⟨a.emitted step.emits, ?_, flatMap_tokens_emitted _, ?_⟩
    · rw [hemits, emitted_append]
      exact hpath.completes hends.completes_finish
    · rw [List.mem_singleton.mp hfinal, follow_finish]
  | cons token tokens ih =>
    rw [ofTokens_cons, mem_pathsAlong_cons] at h
    obtain ⟨next, hnext, hfinal⟩ := h
    obtain ⟨step, hstep, rfl⟩ := List.mem_map.mp hnext
    obtain ⟨r, emits, extra, hpath, _, hends, hemits⟩ := mem_steps_iff.mp hstep
    obtain ⟨w, hw, htokens, hstack⟩ := ih hfinal
    rw [follow_token] at hw hstack
    refine ⟨a.emitted step.emits ++ .read token :: w, ?_, ?_, ?_⟩
    · rw [hemits, hends.extra_eq_nil, List.append_nil]
      exact hpath.completes (hends.completes_token hw)
    · rw [List.flatMap_append, flatMap_tokens_emitted, List.flatMap_cons, htokens]
      rfl
    · rw [hstack, ← List.foldl_append, List.append_assoc]
      rfl

/-- A completion that reads nothing ends the line in one step. -/
theorem Completes.exists_ends_finish {q : Nat} {w : List Action} (h : Completes a.states q w)
    (htokens : w.flatMap Action.tokens = []) :
    ∃ r emits extra, FreePath a q emits r ∧ a.Ends .finish r extra a.accept ∧
      w = a.emitted (emits ++ extra) := by
  rcases h.exists_ends with hends | ⟨text, r, s, emits, rest, _, _, _, rfl⟩
  · exact hends
  · rw [List.flatMap_append, List.flatMap_cons] at htokens
    exact absurd (List.append_eq_nil_iff.mp htokens).2 (List.cons_ne_nil _ _)

/-- A completion that reads a token goes across it in its first step. -/
theorem Completes.exists_ends_token {q : Nat} {w : List Action} {token : String}
    {tokens : List String} (h : Completes a.states q w)
    (htokens : w.flatMap Action.tokens = token :: tokens) :
    ∃ r s emits rest, FreePath a q emits r ∧ a.Ends (.token token) r [] s ∧
      Completes a.states s rest ∧ rest.flatMap Action.tokens = tokens ∧
      w = a.emitted emits ++ .read token :: rest := by
  rcases h.exists_ends with ⟨r, emits, extra, _, _, rfl⟩ |
    ⟨text, r, s, emits, rest, hpath, hends, hrest, rfl⟩
  · rw [flatMap_tokens_emitted] at htokens
    cases htokens
  · rw [List.flatMap_append, flatMap_tokens_emitted, List.flatMap_cons] at htokens
    have hcons : text :: rest.flatMap Action.tokens = token :: tokens := htokens
    obtain ⟨rfl, hrestTokens⟩ := List.cons.inj hcons
    exact ⟨r, s, emits, rest, hpath, hends, hrest, hrestTokens, rfl⟩

/-- What reads a line can be followed by a path along it, if not always with the same emits. -/
theorem exists_mem_pathsAlong_of_completes {tokens : List String} {q : Nat} {w : List Action}
    (hw : Completes a.states q w) (htokens : w.flatMap Action.tokens = tokens) (stack : Stack) :
    ∃ final, final ∈ a.pathsAlong (Symbol.ofTokens tokens) ⟨q, stack⟩ := by
  induction tokens generalizing q w stack with
  | nil =>
    obtain ⟨r, emits, extra, hpath, hends, _⟩ := hw.exists_ends_finish htokens
    obtain ⟨step, hstep, _⟩ := exists_mem_steps_iff.mpr ⟨r, emits, extra, hpath, hends⟩
    exact ⟨_, mem_pathsAlong_cons.mpr ⟨_, List.mem_map_of_mem hstep, List.mem_singleton_self _⟩⟩
  | cons token tokens ih =>
    obtain ⟨r, s, emits, rest, hpath, hends, hrest, hrestTokens, _⟩ := hw.exists_ends_token htokens
    obtain ⟨step, hstep, htarget⟩ := exists_mem_steps_iff.mpr ⟨r, emits, [], hpath, hends⟩
    rw [← htarget] at hrest
    obtain ⟨final, hfinal⟩ := ih hrest hrestTokens (a.follow (.token token) ⟨q, stack⟩ step).stack
    exact ⟨final, mem_pathsAlong_cons.mpr ⟨_, List.mem_map_of_mem hstep, hfinal⟩⟩

/-! ## The language of an automaton -/

/-- The lines that an automaton accepts. -/
def language (a : Automaton) : Language String := {tokens | a.accepts tokens = true}

theorem mem_language_iff {tokens : List String} :
    tokens ∈ a.language ↔ a.accepts tokens = true := Iff.rfl

/-- An automaton accepts what its traces read. -/
theorem language_eq (a : Automaton) : a.language = respell Action.tokens (traces a.states) := by
  ext tokens
  rw [mem_language_iff, accepts_iff_exists_path []]
  constructor
  · rintro ⟨final, hfinal⟩
    obtain ⟨w, hw, htokens, _⟩ := exists_completes_of_mem_pathsAlong hfinal
    exact ⟨w, hw, htokens⟩
  · rintro ⟨w, hw, htokens⟩
    exact exists_mem_pathsAlong_of_completes hw htokens []

/-- The exit is a state without a way on, which consumes nothing. -/
def ExitIsFinal (a : Automaton) : Prop :=
  ∃ last, a.state? a.accept = some last ∧ last.isFinal = true

theorem ExitIsFinal.sound (h : a.ExitIsFinal) : Sound a.states := by
  obtain ⟨last, hstate, hfinal⟩ := h
  exact ⟨a.closed, last, Array.back?_eq_getElem?.trans hstate, hfinal⟩

theorem respell_denote_language (quantifier : Quantifier) (part : Automaton) :
    respell Action.tokens (quantifier.denote (traces part.states)) =
      quantifier.denote part.language := by
  rw [Grammar.map_denote_quantifier respell_kstar, language_eq]

/-! ## The languages of composed automata -/

section

variable {parts : List Automaton}

theorem exists_concat_language (h : ∀ part ∈ parts, part.ExitIsFinal) :
    ∃ whole, concat parts = .ok whole ∧ whole.language = (parts.map language).prod := by
  obtain ⟨whole, hrun, _⟩ := exists_concat fun part hpart => (h part hpart).sound
  refine ⟨whole, hrun, ?_⟩
  rw [language_eq, traces_concat (fun part hpart => (h part hpart).sound) hrun, map_list_prod,
    List.map_map]
  congr 1
  exact List.map_congr_left fun part _ => (language_eq part).symm

theorem exists_union_language (h : ∀ part ∈ parts, part.ExitIsFinal) :
    ∃ whole, union parts = .ok whole ∧ whole.language = oneOf (parts.map language) := by
  obtain ⟨whole, hrun, _⟩ := exists_union fun part hpart => (h part hpart).sound
  refine ⟨whole, hrun, ?_⟩
  rw [language_eq, traces_union (fun part hpart => (h part hpart).sound) hrun, map_oneOf,
    List.map_map]
  congr 1
  exact List.map_congr_left fun part _ => (language_eq part).symm

theorem exists_quantify_language (quantifier : Quantifier) (h : a.ExitIsFinal) :
    ∃ whole, quantify quantifier a = .ok whole ∧ whole.language = quantifier.denote a.language := by
  obtain ⟨whole, hrun, _⟩ := exists_quantify quantifier h.sound
  refine ⟨whole, hrun, ?_⟩
  rw [language_eq, traces_quantify h.sound hrun, respell_denote_language]

theorem exists_emitting_language (h : a.ExitIsFinal) (rule : Rule) :
    ∃ whole, a.emitting rule = .ok whole ∧ whole.language = a.language := by
  obtain ⟨whole, hrun, _⟩ := exists_emitting h.sound rule
  have hrule : respell Action.tokens {[.emit rule]} = 1 := by
    ext tokens
    constructor
    · rintro ⟨_, rfl, rfl⟩
      rfl
    · rintro rfl
      exact ⟨_, rfl, rfl⟩
  refine ⟨whole, hrun, ?_⟩
  rw [language_eq, traces_emitting h.sound hrun, map_mul, hrule, mul_one, language_eq]

end

end Automaton

/-- The automaton of a grammar accepts the lines of the grammar. -/
theorem Grammar.language_automaton (grammar : Grammar) :
    grammar.automaton.language = grammar.language := by
  rw [Automaton.language_eq, traces_automaton, respell_respell,
    funext Entry.flatMap_tokens_actions, respell_tokens_readings]

namespace Automaton

/-- **The operations on automata are operations on languages.**  On parts that end in a final state
they all succeed: parts one after the other accept the concatenations, parts side by side the union
(and the empty line if there are none), a repeated part the repetitions, and reporting a rule
changes nothing about what is accepted.  So the automaton of a grammar, whatever its shape, accepts
exactly the lines that the grammar denotes. -/
theorem language_of_operations :
    (∀ parts : List Automaton, (∀ part ∈ parts, part.ExitIsFinal) →
      (∃ whole, concat parts = .ok whole ∧ whole.language = (parts.map language).prod) ∧
      (∃ whole, union parts = .ok whole ∧ whole.language = oneOf (parts.map language))) ∧
    (∀ part : Automaton, part.ExitIsFinal →
      (∃ whole, part.star = .ok whole ∧ whole.language = part.language∗) ∧
      (∃ whole, part.plus = .ok whole ∧ whole.language = part.language * part.language∗) ∧
      (∃ whole, part.optional = .ok whole ∧ whole.language = 1 + part.language) ∧
      (∀ rule, ∃ whole, part.emitting rule = .ok whole ∧ whole.language = part.language)) ∧
    (∀ (grammar : Grammar) (tokens : List String),
      grammar.automaton.accepts tokens = true ↔ tokens ∈ grammar.language) := by
  refine ⟨fun parts h => ⟨exists_concat_language h, exists_union_language h⟩, fun part h => ?_,
    fun grammar tokens => ?_⟩
  · exact ⟨exists_quantify_language .star h, exists_quantify_language .plus h,
      exists_quantify_language .optional h, exists_emitting_language h⟩
  · rw [← mem_language_iff, Grammar.language_automaton]

/-- The automaton of one word ends in a final state, and repeated it accepts the word any number of
times. -/
theorem language_of_operations_word :
    (consuming (.word "go")).ExitIsFinal ∧
      ∃ whole, (consuming (.word "go")).star = .ok whole ∧
        whole.language = (consuming (.word "go")).language∗ := by
  have hfinal : (consuming (.word "go")).ExitIsFinal := ⟨.halt, rfl, rfl⟩
  exact ⟨hfinal, (language_of_operations.2.1 _ hfinal).1⟩

end Automaton

end CommandGrammar
