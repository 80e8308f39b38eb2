import Mathlib.Algebra.GroupWithZero.Nat
import Mathlib.Data.List.ReduceOption
import CommandGrammar.Grammar.Automaton
import CommandGrammar.Proofs.Grammar.Drafting

/-!
# What the states of a table emit

Every leaf of a grammar has its own place in the automaton: one state that emits its rule.  The
operations on automata move states and link them, add a few that emit nothing, and otherwise keep
the tables of the parts as they are and in their order.  So the rules that the states emit, listed
in the order of the table, are the leaves of the grammar from left to right, and the number of
states can be read off the tree (`Grammar.tableSize`).

`emissions` lists what each state of a table emits, a rule or nothing, and says with that both which
rules come in which order and how many states there are.  Each operation has one equation about it
(`emissions_of_concat_cons`, `emissions_of_union`, `emissions_of_quantify` and so on); that the
operation succeeds is all that is asked for.  `Grammar.census_build` then follows the tree.
-/

namespace CommandGrammar

open Grammar (bind_eq_ok_iff)

namespace State

/-- The rule that a state emits, if it emits one. -/
def rule? : State → Option Rule
  | .emit rule _ => some rule
  | _ => none

@[simp] theorem rule?_shift (offset : Nat) (state : State) :
    (state.shift offset).rule? = state.rule? := by
  cases state <;> rfl

theorem rule?_of_link {state linked : State} {target : Nat} (h : state.link target = .ok linked) :
    linked.rule? = state.rule? := by
  cases state with
  | consume transitions => cases h
  | halt =>
    cases h
    rfl
  | free next =>
    cases h
    rfl
  | emit rule next =>
    cases h
    rfl

end State

namespace Automaton

/-- What each state of a table emits, in the order of the table: a rule, or nothing. -/
def emissions (states : Array State) : List (Option Rule) := states.toList.map State.rule?

/-- The rules that the states of a table emit, in the order of the table. -/
def rules (states : Array State) : List Rule := states.toList.filterMap State.rule?

theorem rules_eq_reduceOption (states : Array State) :
    rules states = (emissions states).reduceOption := by
  rw [rules, emissions, List.reduceOption, List.filterMap_map]
  rfl

@[simp] theorem length_emissions (states : Array State) :
    (emissions states).length = states.size := by
  rw [emissions, List.length_map, Array.length_toList]

@[simp] theorem emissions_append (first second : Array State) :
    emissions (first ++ second) = emissions first ++ emissions second := by
  rw [emissions, Array.toList_append, List.map_append]
  rfl

@[simp] theorem emissions_push (states : Array State) (last : State) :
    emissions (states.push last) = emissions states ++ [last.rule?] := by
  rw [emissions, Array.toList_push, List.map_append]
  rfl

@[simp] theorem emissions_shifted (offset : Nat) (part : Automaton) :
    emissions (part.shifted offset) = emissions part.states := by
  rw [emissions, shifted, Array.toList_map, List.map_map]
  exact List.map_congr_left fun state _ => State.rule?_shift offset state

@[simp] theorem emissions_enclosed (entries : List Nat) (states : Array State) :
    emissions (enclosed entries states) = none :: emissions states ++ [none] := by
  rw [enclosed, emissions_push, emissions_append]
  rfl

theorem emissions_of_linkLast {states linked : Array State} {target : Nat}
    (h : linkLast states target = .ok linked) : emissions linked = emissions states := by
  unfold linkLast at h
  split at h
  · cases h
  · next last hback =>
    obtain ⟨before, rfl⟩ := Array.back?_eq_some_iff.mp hback
    obtain ⟨state, hlink, hlinked⟩ := bind_eq_ok_iff.mp h
    cases hlinked
    rw [Array.pop_push, emissions_push, emissions_push, State.rule?_of_link hlink]

theorem emissions_of_ofStates {states : Array State} {a : Automaton} (h : ofStates states = .ok a) :
    emissions a.states = emissions states := by
  rw [states_of_ofStates_eq_ok h]

/-! ## The operations -/

theorem emissions_of_followedBy {states whole : Array State} {part : Automaton}
    (h : followedBy states part = .ok whole) :
    emissions whole = emissions states ++ emissions part.states := by
  obtain ⟨linked, hlink, hwhole⟩ := bind_eq_ok_iff.mp h
  cases hwhole
  rw [emissions_append, emissions_shifted, emissions_of_linkLast hlink]

theorem emissions_of_foldlM_followedBy {parts : List Automaton} {states whole : Array State}
    (h : parts.foldlM followedBy states = .ok whole) :
    emissions whole = emissions states ++ parts.flatMap fun part => emissions part.states := by
  induction parts generalizing states with
  | nil =>
    cases h
    rw [List.flatMap_nil, List.append_nil]
  | cons part rest ih =>
    rw [List.foldlM_cons] at h
    obtain ⟨next, hnext, hrest⟩ := bind_eq_ok_iff.mp h
    rw [ih hrest, emissions_of_followedBy hnext, List.flatMap_cons, List.append_assoc]

theorem emissions_of_concat_cons {first : Automaton} {rest : List Automaton} {whole : Automaton}
    (h : concat (first :: rest) = .ok whole) :
    emissions whole.states = (first :: rest).flatMap fun part => emissions part.states := by
  obtain ⟨states, hfold, hmake⟩ := bind_eq_ok_iff.mp h
  rw [emissions_of_ofStates hmake, emissions_of_foldlM_followedBy hfold, List.flatMap_cons]

theorem emissions_of_beside {parts : List Automaton} {exit offset : Nat} {entries : List Nat}
    {states : Array State} (h : beside exit offset parts = .ok (entries, states)) :
    emissions states = parts.flatMap fun part => emissions part.states := by
  induction parts generalizing offset entries states with
  | nil =>
    cases h
    rfl
  | cons part rest ih =>
    obtain ⟨linked, hlink, hrest⟩ := bind_eq_ok_iff.mp h
    obtain ⟨⟨others, after⟩, hbeside, hstates⟩ := bind_eq_ok_iff.mp hrest
    cases hstates
    rw [emissions_append, emissions_of_linkLast hlink, emissions_shifted, ih hbeside,
      List.flatMap_cons]

/-- Parts side by side stand between a new entry and a new exit, if they are several. -/
theorem emissions_of_union {first second : Automaton} {rest : List Automaton} {whole : Automaton}
    (h : union (first :: second :: rest) = .ok whole) :
    emissions whole.states =
      none :: ((first :: second :: rest).flatMap fun part => emissions part.states) ++ [none] := by
  obtain ⟨⟨entries, states⟩, hbeside, hmake⟩ := bind_eq_ok_iff.mp h
  rw [emissions_of_ofStates hmake, emissions_enclosed, emissions_of_beside hbeside]

theorem emissions_of_star {part whole : Automaton} (h : part.star = .ok whole) :
    emissions whole.states = none :: emissions part.states ++ [none] := by
  obtain ⟨back, hback, hrest⟩ := bind_eq_ok_iff.mp h
  obtain ⟨states, hstates, hmake⟩ := bind_eq_ok_iff.mp hrest
  rw [emissions_of_ofStates hmake, emissions_enclosed, emissions_of_linkLast hstates,
    emissions_of_linkLast hback, emissions_shifted]

theorem emissions_of_plus {part whole : Automaton} (h : part.plus = .ok whole) :
    emissions whole.states = emissions part.states ++ [none] := by
  obtain ⟨back, hback, hrest⟩ := bind_eq_ok_iff.mp h
  obtain ⟨states, hstates, hmake⟩ := bind_eq_ok_iff.mp hrest
  rw [emissions_of_ofStates hmake, emissions_push, emissions_of_linkLast hstates,
    emissions_of_linkLast hback]
  rfl

theorem emissions_of_optional {part whole : Automaton} (h : part.optional = .ok whole) :
    emissions whole.states = none :: emissions part.states ++ [none] := by
  obtain ⟨states, hstates, hmake⟩ := bind_eq_ok_iff.mp h
  rw [emissions_of_ofStates hmake, emissions_enclosed, emissions_of_linkLast hstates,
    emissions_shifted]

theorem emissions_of_emitting {part whole : Automaton} {rule : Rule}
    (h : part.emitting rule = .ok whole) :
    emissions whole.states = emissions part.states ++ [some rule] := by
  obtain ⟨states, hstates, hmake⟩ := bind_eq_ok_iff.mp h
  rw [emissions_of_ofStates hmake, emissions_push, emissions_of_linkLast hstates]
  rfl

/-! ## Rules and sizes -/

/-- What the states emit settles the rules and the size of a table. -/
theorem rules_and_size {a : Automaton} {emitted : List (Option Rule)}
    (h : emissions a.states = emitted) :
    rules a.states = emitted.reduceOption ∧ a.size = emitted.length := by
  rw [rules_eq_reduceOption, ← h, length_emissions]
  exact ⟨rfl, rfl⟩

theorem reduceOption_flatMap_emissions (parts : List Automaton) :
    (parts.flatMap fun part => emissions part.states).reduceOption =
      parts.flatMap fun part => rules part.states := by
  rw [List.reduceOption, List.filterMap_flatMap]
  simp only [rules_eq_reduceOption]
  rfl

theorem length_flatMap_emissions (parts : List Automaton) :
    (parts.flatMap fun part => emissions part.states).length = (parts.map size).sum := by
  rw [List.length_flatMap]
  simp only [length_emissions]
  rfl

/-- A part between a new entry and a new exit. -/
theorem rules_and_size_enclosed {part whole : Automaton}
    (h : emissions whole.states = none :: emissions part.states ++ [none]) :
    rules whole.states = rules part.states ∧ whole.size = part.size + 2 := by
  obtain ⟨hrules, hsize⟩ := rules_and_size h
  rw [hrules, List.reduceOption_append, List.reduceOption_cons_of_none, ← rules_eq_reduceOption,
    hsize, List.length_append, List.length_cons, length_emissions]
  exact ⟨List.append_nil _, rfl⟩

end Automaton

/-- The number of states that a quantifier adds. -/
def Quantifier.addedStates : Quantifier → Nat
  | .star => 2
  | .plus => 1
  | .optional => 2

namespace Grammar

/-- The number of states of a sequence whose children have the given numbers of states. -/
def sequenceSize : List Nat → Nat
  | [] => 1
  | sizes => sizes.sum

/-- The number of states of alternatives whose branches have the given numbers of states. -/
def alternativesSize : List Nat → Nat
  | [] => 1
  | [size] => size
  | sizes => sizes.sum + 2

mutual

/-- The number of states in the automaton of a grammar. -/
def tableSize : Grammar → Nat
  | .leaf (.keyword _) => 3
  | .leaf (.capture _) => 4
  | .sequence children => sequenceSize (childSizes children)
  | .alternatives branches => alternativesSize (branchSizes branches)
  | .quantified quantifier inner => inner.tableSize + quantifier.addedStates

/-- The numbers of states of the children of a sequence. -/
def childSizes : List Grammar → List Nat
  | [] => []
  | child :: rest => child.tableSize :: childSizes rest

/-- The numbers of states of the branches of an alternation. -/
def branchSizes : List (List Grammar) → List Nat
  | [] => []
  | branch :: rest => sequenceSize (childSizes branch) :: branchSizes rest

end

open Automaton

theorem census_concat {parts : List Automaton} {whole : Automaton}
    (h : concat parts = .ok whole) :
    rules whole.states = (parts.flatMap fun part => rules part.states) ∧
      whole.size = sequenceSize (parts.map Automaton.size) := by
  cases parts with
  | nil =>
    cases h
    exact ⟨rfl, rfl⟩
  | cons first rest =>
    obtain ⟨hrules, hsize⟩ := rules_and_size (emissions_of_concat_cons h)
    rw [hrules, reduceOption_flatMap_emissions, hsize, length_flatMap_emissions]
    exact ⟨rfl, rfl⟩

theorem census_union {parts : List Automaton} {whole : Automaton}
    (h : union parts = .ok whole) :
    rules whole.states = (parts.flatMap fun part => rules part.states) ∧
      whole.size = alternativesSize (parts.map Automaton.size) := by
  match parts with
  | [] =>
    cases h
    exact ⟨rfl, rfl⟩
  | [part] =>
    cases h
    exact ⟨(List.flatMap_singleton ..).symm, rfl⟩
  | first :: second :: rest =>
    obtain ⟨hrules, hsize⟩ := rules_and_size (emissions_of_union h)
    rw [hrules, List.reduceOption_append, List.reduceOption_cons_of_none,
      reduceOption_flatMap_emissions, hsize, List.length_append, List.length_cons,
      length_flatMap_emissions]
    exact ⟨List.append_nil _, rfl⟩

theorem census_quantify {quantifier : Quantifier} {part whole : Automaton}
    (h : quantify quantifier part = .ok whole) :
    rules whole.states = rules part.states ∧
      whole.size = part.size + quantifier.addedStates := by
  cases quantifier with
  | star => exact rules_and_size_enclosed (emissions_of_star h)
  | plus =>
    obtain ⟨hrules, hsize⟩ := rules_and_size (emissions_of_plus h)
    rw [hrules, List.reduceOption_append, ← rules_eq_reduceOption, hsize, List.length_append,
      length_emissions]
    exact ⟨List.append_nil _, rfl⟩
  | optional => exact rules_and_size_enclosed (emissions_of_optional h)

theorem census_leaf {rule : Rule} {a : Automaton} (h : rule.build = .ok a) :
    rules a.states = [rule] ∧ a.size = (Grammar.leaf rule).tableSize := by
  cases rule with
  | keyword word =>
    exact rules_and_size (emissions_of_emitting h)
  | capture tags =>
    obtain ⟨run, hplus, hemit⟩ := bind_eq_ok_iff.mp h
    have hall := emissions_of_emitting hemit
    rw [emissions_of_plus hplus] at hall
    exact rules_and_size hall

/-! ## The automaton of a grammar -/

mutual

/-- The automaton that is built for a grammar emits its leaves in order, and has as many states as
the tree says. -/
theorem census_build : (grammar : Grammar) → {a : Automaton} → grammar.build = .ok a →
    rules a.states = grammar.leaves ∧ a.size = grammar.tableSize
  | .leaf _, _, h => census_leaf h
  | .sequence children, a, h => by
    obtain ⟨parts, hall, hconcat⟩ := bind_eq_ok_iff.mp h
    obtain ⟨hrules, hsize⟩ := census_concat hconcat
    obtain ⟨hleaves, hsizes⟩ := census_buildAll children hall
    rw [hrules, hleaves, hsize, hsizes]
    exact ⟨rfl, rfl⟩
  | .alternatives branches, a, h => by
    obtain ⟨parts, hall, hunion⟩ := bind_eq_ok_iff.mp h
    obtain ⟨hrules, hsize⟩ := census_union hunion
    obtain ⟨hleaves, hsizes⟩ := census_buildBranches branches hall
    rw [hrules, hleaves, hsize, hsizes]
    exact ⟨rfl, rfl⟩
  | .quantified quantifier inner, a, h => by
    obtain ⟨part, hinner, hquantify⟩ := bind_eq_ok_iff.mp h
    obtain ⟨hrules, hsize⟩ := census_quantify hquantify
    obtain ⟨hleaves, hsizes⟩ := census_build inner hinner
    rw [hrules, hleaves, hsize, hsizes]
    exact ⟨rfl, rfl⟩

theorem census_buildAll : (children : List Grammar) → {parts : List Automaton} →
    buildAll children = .ok parts →
    (parts.flatMap fun part => rules part.states) = leavesAll children ∧
      parts.map Automaton.size = childSizes children
  | [], parts, h => by
    cases h
    exact ⟨rfl, rfl⟩
  | child :: rest, parts, h => by
    obtain ⟨first, hfirst, hrest⟩ := bind_eq_ok_iff.mp h
    obtain ⟨others, hothers, hparts⟩ := bind_eq_ok_iff.mp hrest
    cases hparts
    obtain ⟨hleaves, hsize⟩ := census_build child hfirst
    obtain ⟨hothersLeaves, hsizes⟩ := census_buildAll rest hothers
    rw [List.flatMap_cons, hleaves, hothersLeaves, List.map_cons, hsize, hsizes]
    exact ⟨rfl, rfl⟩

theorem census_buildBranches : (branches : List (List Grammar)) → {parts : List Automaton} →
    buildBranches branches = .ok parts →
    (parts.flatMap fun part => rules part.states) = leavesBranches branches ∧
      parts.map Automaton.size = branchSizes branches
  | [], parts, h => by
    cases h
    exact ⟨rfl, rfl⟩
  | branch :: rest, parts, h => by
    obtain ⟨inner, hinner, hrest⟩ := bind_eq_ok_iff.mp h
    obtain ⟨first, hconcat, hlater⟩ := bind_eq_ok_iff.mp hrest
    obtain ⟨others, hothers, hparts⟩ := bind_eq_ok_iff.mp hlater
    cases hparts
    obtain ⟨hrules, hsize⟩ := census_concat hconcat
    obtain ⟨hleaves, hsizes⟩ := census_buildAll branch hinner
    obtain ⟨hothersLeaves, hothersSizes⟩ := census_buildBranches rest hothers
    rw [List.flatMap_cons, hrules, hleaves, hothersLeaves, List.map_cons, hsize, hsizes,
      hothersSizes]
    exact ⟨rfl, rfl⟩

end

/-- **Every leaf is compiled once, in order.**  The rules that the states of the automaton of a
grammar emit, listed by increasing number of the state and with repetitions, are the rules at the
leaves of the grammar from left to right; and the table has the number of states that is counted
over the tree: three for a keyword and four for a capture, for a sequence the sum over its children,
or one if there are none, for alternatives two more than the sum over the branches, or the number
for the only branch, or one if there is none, and on top of the number for what is quantified two
for `*` and `?` and one for `+`. -/
theorem automaton_emits_leaves_in_order (grammar : Grammar) :
    grammar.automaton.states.toList.filterMap State.rule? = grammar.leaves ∧
      grammar.automaton.size = grammar.tableSize :=
  census_build grammar grammar.build_eq_ok_automaton

example : (sequence [leaf (.keyword "take"), leaf (.capture ["ITEM"])]).tableSize = 7 := rfl

end Grammar
end CommandGrammar
