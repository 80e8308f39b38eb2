import CommandGrammar.Grammar.Automaton

/-!
# Induction over the automaton of a grammar

What is true of the tables of all leaves, of the trivial automaton, and of everything that is put
together from tables of which it is true, is true of the automaton of every grammar.  `Kept` lists
what has to be shown, one obligation for each way of putting tables together, and
`Grammar.of_kept` is the induction: it follows the tree, and along a sequence the fold over its
children.

The parts may be taken to be sound, since every table that is built on the way is.
-/

namespace CommandGrammar
namespace Automaton

/-- A property of tables that holds of the smallest ones and that the operations keep. -/
structure Kept (P : Array State → Prop) : Prop where
  leaf : ∀ {rule : Rule} {a : Automaton}, rule.build = .ok a → P a.states
  trivial : P trivial.states
  followedBy : ∀ {states whole : Array State} {part : Automaton}, Sound states → P states →
    Sound part.states → P part.states → followedBy states part = .ok whole → P whole
  union : ∀ {parts : List Automaton} {whole : Automaton}, 2 ≤ parts.length →
    (∀ part ∈ parts, Sound part.states ∧ P part.states) → union parts = .ok whole → P whole.states
  quantify : ∀ {quantifier : Quantifier} {part whole : Automaton}, Sound part.states →
    P part.states → quantify quantifier part = .ok whole → P whole.states

namespace Kept

variable {P : Array State → Prop}

theorem foldlM_followedBy (h : Kept P) {parts : List Automaton} {states whole : Array State}
    (hsound : Sound states) (hstates : P states)
    (hparts : ∀ part ∈ parts, Sound part.states ∧ P part.states)
    (hrun : parts.foldlM Automaton.followedBy states = .ok whole) : P whole := by
  induction parts generalizing states with
  | nil =>
    cases hrun
    exact hstates
  | cons part rest ih =>
    obtain ⟨hsoundPart, hpart⟩ := hparts part List.mem_cons_self
    obtain ⟨next, hnext, hsoundNext⟩ := exists_followedBy hsound hsoundPart
    have hrest : rest.foldlM Automaton.followedBy next = .ok whole := by
      simpa [List.foldlM_cons, hnext, bind, Except.bind] using hrun
    exact ih hsoundNext (h.followedBy hsound hstates hsoundPart hpart hnext)
      (fun p hp => hparts p (List.mem_cons_of_mem _ hp)) hrest

theorem concat (h : Kept P) {parts : List Automaton} {whole : Automaton}
    (hparts : ∀ part ∈ parts, Sound part.states ∧ P part.states)
    (hrun : Automaton.concat parts = .ok whole) : P whole.states := by
  cases parts with
  | nil =>
    cases hrun
    exact h.trivial
  | cons first rest =>
    obtain ⟨hsound, hfirst⟩ := hparts first List.mem_cons_self
    have hrest : ∀ part ∈ rest, Sound part.states ∧ P part.states :=
      fun p hp => hparts p (List.mem_cons_of_mem _ hp)
    obtain ⟨states, hfold, _⟩ := exists_foldlM_followedBy hsound fun p hp => (hrest p hp).1
    have hmake : ofStates states = .ok whole := by
      simpa [Automaton.concat, hfold, bind, Except.bind] using hrun
    rw [states_of_ofStates_eq_ok hmake]
    exact h.foldlM_followedBy hsound hfirst hrest hfold

theorem anyUnion (h : Kept P) {parts : List Automaton} {whole : Automaton}
    (hparts : ∀ part ∈ parts, Sound part.states ∧ P part.states)
    (hrun : Automaton.union parts = .ok whole) : P whole.states := by
  match parts with
  | [] =>
    cases hrun
    exact h.trivial
  | [part] =>
    cases hrun
    exact (hparts _ List.mem_cons_self).2
  | first :: second :: rest => exact h.union (by simp) hparts hrun

end Kept
end Automaton

namespace Grammar

open Automaton (Sound)

variable {P : Array State → Prop}

mutual

theorem kept_build (h : Automaton.Kept P) : (grammar : Grammar) → {a : Automaton} →
    grammar.build = .ok a → P a.states
  | .leaf rule, a, hbuild => h.leaf hbuild
  | .sequence children, a, hbuild => by
    obtain ⟨parts, hall, _⟩ := exists_buildAll children
    have hconcat : Automaton.concat parts = .ok a := by
      simpa [build, hall, bind, Except.bind] using hbuild
    exact h.concat (kept_buildAll h children hall) hconcat
  | .alternatives branches, a, hbuild => by
    obtain ⟨parts, hall, _⟩ := exists_buildBranches branches
    have hunion : Automaton.union parts = .ok a := by
      simpa [build, hall, bind, Except.bind] using hbuild
    exact h.anyUnion (kept_buildBranches h branches hall) hunion
  | .quantified quantifier inner, a, hbuild => by
    obtain ⟨part, hinner, hsound⟩ := exists_build inner
    have hquantify : Automaton.quantify quantifier part = .ok a := by
      simpa [build, hinner, bind, Except.bind] using hbuild
    exact h.quantify hsound (kept_build h inner hinner) hquantify

theorem kept_buildAll (h : Automaton.Kept P) : (children : List Grammar) →
    {parts : List Automaton} → buildAll children = .ok parts →
    ∀ part ∈ parts, Sound part.states ∧ P part.states
  | [], parts, hbuild => by
    cases hbuild
    exact fun part hpart => absurd hpart List.not_mem_nil
  | child :: rest, parts, hbuild => by
    obtain ⟨first, hfirst, hsound⟩ := exists_build child
    obtain ⟨others, hothers, _⟩ := exists_buildAll rest
    have hparts : first :: others = parts := by
      simpa [buildAll, hfirst, hothers, bind, Except.bind, pure, Except.pure] using hbuild
    rw [← hparts]
    exact List.forall_mem_cons.mpr
      ⟨⟨hsound, kept_build h child hfirst⟩, kept_buildAll h rest hothers⟩

theorem kept_buildBranches (h : Automaton.Kept P) : (branches : List (List Grammar)) →
    {parts : List Automaton} → buildBranches branches = .ok parts →
    ∀ part ∈ parts, Sound part.states ∧ P part.states
  | [], parts, hbuild => by
    cases hbuild
    exact fun part hpart => absurd hpart List.not_mem_nil
  | branch :: rest, parts, hbuild => by
    obtain ⟨inner, hinner, hsounds⟩ := exists_buildAll branch
    obtain ⟨first, hconcat, hsound⟩ := Automaton.exists_concat hsounds
    obtain ⟨others, hothers, _⟩ := exists_buildBranches rest
    have hparts : first :: others = parts := by
      simpa [buildBranches, hinner, hconcat, hothers, bind, Except.bind, pure, Except.pure]
        using hbuild
    rw [← hparts]
    exact List.forall_mem_cons.mpr
      ⟨⟨hsound, h.concat (kept_buildAll h branch hinner) hconcat⟩,
        kept_buildBranches h rest hothers⟩

end

/-- A property of tables that the operations keep holds of the automaton of every grammar. -/
theorem of_kept (h : Automaton.Kept P) (grammar : Grammar) : P grammar.automaton.states :=
  kept_build h grammar grammar.build_eq_ok_automaton

end Grammar
end CommandGrammar
