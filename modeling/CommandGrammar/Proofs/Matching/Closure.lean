import Mathlib.Logic.Function.Iterate
import CommandGrammar.Proofs.Automaton.Due
import CommandGrammar.Proofs.Matching.FreePath

/-!
# The search for steps ends

The steps from a state are found by a search over the free ways from it.  What is marked as visited
is a state together with the emit states left on the way to it, and these lists can be of any
length, so marking alone does not bring the search to an end.  `Automaton.steps` passes over an emit
state that it has left before.  Here it is shown when this makes no difference: if no free cycle
leaves an emit state (`EmitAcyclic`), a way cannot come back to an emit state, and the plain loop,
which knows nothing of the condition, comes to an end and finds the same steps
(`exists_iterate_round_eq`).  The invariant of the loop is that everything that waits is the end of
a free path.

The automaton of a grammar has no such cycle, whatever is repeated in it.  It is orderly, so a free
path leaves at most one emit state, and none if nothing is due where it begins.
-/

namespace CommandGrammar
namespace Automaton

variable {a : Automaton}

/-- No free cycle leaves an emit state. -/
def EmitAcyclic (a : Automaton) : Prop := ∀ q emits, FreePath a q emits q → emits = []

/-- A free path does not come back to an emit state that it has left. -/
theorem EmitAcyclic.not_mem (h : a.EmitAcyclic) {q s : Nat} {emits : List Nat}
    (hpath : FreePath a q emits s) : s ∉ emits := by
  intro hmem
  obtain ⟨before, after, _, _, hcycle⟩ := hpath.exists_split hmem
  exact List.cons_ne_nil _ _ (h s _ hcycle)

/-! ## The loop -/

/-- The visits that follow a visit by one free transition, whatever was left before. -/
def following (a : Automaton) (visit : Visit) : List Visit :=
  match a.state? visit.state with
  | some (.free next) => next.map (⟨·, visit.emits⟩)
  | some (.emit _ next) => next.map (⟨·, visit.emits ++ [visit.state]⟩)
  | _ => []

theorem onward_eq_following {visit : Visit} (h : visit.state ∉ visit.emits) :
    a.onward visit = a.following visit := by
  cases hstate : a.state? visit.state with
  | none => simp [onward, following, hstate]
  | some state => cases state <;> simp [onward, following, hstate, h]

/-- What follows the end of a free path is the end of a free path. -/
theorem freePath_of_mem_following {q : Nat} {visit after : Visit}
    (hpath : FreePath a q visit.emits visit.state) (h : after ∈ a.following visit) :
    FreePath a q after.emits after.state := by
  cases hstate : a.state? visit.state with
  | none => simp [following, hstate] at h
  | some state =>
    cases state with
    | halt => simp [following, hstate] at h
    | consume transitions => simp [following, hstate] at h
    | free next =>
      simp only [following, hstate] at h
      obtain ⟨target, htarget, rfl⟩ := List.mem_map.mp h
      rw [← List.append_nil visit.emits]
      exact hpath.trans (.free hstate htarget (.refl target))
    | emit rule next =>
      simp only [following, hstate] at h
      obtain ⟨target, htarget, rfl⟩ := List.mem_map.mp h
      exact hpath.trans (.emit hstate htarget (.refl target))

/-- A search for steps between two rounds: the visits that wait, those that have been made, and the
steps that have been found. -/
structure Loop where
  waiting : List Visit
  visited : Std.HashSet Visit
  found : List Step

namespace Loop

/-- The search before its first round. -/
def start (q : Nat) : Loop := ⟨[⟨q, []⟩], ∅, []⟩

/-- One round: the first visit that waits is passed over if it has been made before; otherwise it is
made, and what follows it waits before all others. -/
def round (a : Automaton) (symbol : Symbol) (loop : Loop) : Loop :=
  match loop.waiting with
  | [] => loop
  | visit :: rest =>
    if loop.visited.contains visit then { loop with waiting := rest }
    else
      { waiting := a.following visit ++ rest
        visited := loop.visited.insert visit
        found := loop.found ++ a.taken symbol visit }

end Loop

open Search in
/-- As long as all that waits are ends of free paths, the loop comes to an end, and finds what the
search finds. -/
theorem exists_iterate_round_eq (h : a.EmitAcyclic) {q : Nat} {symbol : Symbol}
    {visited : Std.HashSet Visit} {waiting : List Visit}
    {inside : ∀ visit ∈ waiting, (a.region q).holds visit} (found : List Step)
    (hpaths : ∀ visit ∈ waiting, FreePath a q visit.emits visit.state) :
    ∃ rounds visited', (Loop.round a symbol)^[rounds] ⟨waiting, visited, found⟩ =
      ⟨[], visited', found ++
        explore a.onward (a.taken symbol) (a.region q) visited waiting inside⟩ := by
  induction visited, waiting, inside using explore.induct generalizing found with
  | case1 visited inside =>
    refine ⟨0, visited, ?_⟩
    rw [explore_nil, List.append_nil]
    rfl
  | case2 visited visit rest inside hseen _ ih =>
    obtain ⟨rounds, visited', hrun⟩ :=
      ih found fun other hother => hpaths other (List.mem_cons_of_mem _ hother)
    refine ⟨rounds + 1, visited', ?_⟩
    rw [explore_cons_of_visited inside hseen, ← hrun, Function.iterate_succ_apply]
    simp only [Loop.round, hseen, if_true]
  | case3 visited visit rest inside hseen _ ih =>
    have hfresh : visited.contains visit = false := by simpa using hseen
    have hpath := hpaths visit List.mem_cons_self
    have honward : a.onward visit = a.following visit := onward_eq_following (h.not_mem hpath)
    have hnext : ∀ other ∈ a.onward visit ++ rest, FreePath a q other.emits other.state := by
      intro other hother
      rcases List.mem_append.mp hother with hother | hother
      · rw [honward] at hother
        exact freePath_of_mem_following hpath hother
      · exact hpaths other (List.mem_cons_of_mem _ hother)
    obtain ⟨rounds, visited', hrun⟩ := ih (found ++ a.taken symbol visit) hnext
    refine ⟨rounds + 1, visited', ?_⟩
    rw [explore_cons_of_fresh inside hfresh, ← List.append_assoc, ← hrun,
      Function.iterate_succ_apply]
    simp only [Loop.round, hfresh, honward, Bool.false_eq_true, if_false]

/-- Where no free cycle leaves an emit state, the loop ends with the steps from the state. -/
theorem EmitAcyclic.exists_rounds (h : a.EmitAcyclic) (q : Nat) (symbol : Symbol) :
    ∃ rounds, ((Loop.round a symbol)^[rounds] (Loop.start q)).waiting = [] ∧
      ((Loop.round a symbol)^[rounds] (Loop.start q)).found = a.steps q symbol := by
  have hstart : ∀ visit ∈ [(⟨q, []⟩ : Visit)], FreePath a q visit.emits visit.state := by
    intro visit hvisit
    rw [List.mem_singleton.mp hvisit]
    exact .refl q
  obtain ⟨rounds, visited, hrun⟩ := exists_iterate_round_eq h [] hstart
  exact ⟨rounds, by rw [Loop.start, hrun], by rw [Loop.start, hrun]; rfl⟩

/-! ## Orderly tables -/

/-- What is due at the end of a free path that leaves no emit state is due at its beginning. -/
theorem FreePath.due {q s : Nat} {emits : List Nat} (hpath : FreePath a q emits s)
    (hnone : emits = []) {due : Option Nat} (h : Due a.states s due) : Due a.states q due := by
  induction hpath with
  | refl q => exact h
  | free hstate hmem _ ih => exact .free hstate hmem (ih hnone h)
  | emit => cases hnone

namespace Orderly

theorem unique (h : Orderly a.states) {q : Nat} {due other : Option Nat}
    (hdue : Due a.states q due) (hother : Due a.states q other) : due = other :=
  (h.everywhere q hdue.lt_size).unique hdue hother

theorem after (h : Orderly a.states) {q r : Nat} {rule : Rule} {next : List Nat}
    (hstate : a.state? q = some (.emit rule next)) (hmem : r ∈ next) : NothingDue a.states r :=
  (h.everywhere q (lt_size_of_state?_eq_some hstate)).after hstate hmem

/-- A free path leaves at most one emit state, and then the one that is due. -/
theorem emits_of_freePath (h : Orderly a.states) {q s : Nat} {emits : List Nat}
    (hpath : FreePath a q emits s) : emits = [] ∨ ∃ e, emits = [e] ∧ Due a.states q (some e) := by
  induction hpath with
  | refl q => exact .inl rfl
  | free hstate hmem _ ih =>
    rcases ih with hnone | ⟨e, hemits, hdue⟩
    · exact .inl hnone
    · exact .inr ⟨e, hemits, .free hstate hmem hdue⟩
  | @emit q r s rule next emits hstate hmem _ ih =>
    rcases ih with rfl | ⟨e, _, hdue⟩
    · exact .inr ⟨q, rfl, .emit hstate⟩
    · cases h.after hstate hmem _ hdue

/-- Nothing is due at the end of a free path that has left an emit state. -/
theorem nothingDue_of_freePath (h : Orderly a.states) {q s : Nat} {emits : List Nat}
    (hpath : FreePath a q emits s) (hsome : emits ≠ []) : NothingDue a.states s := by
  induction hpath with
  | refl q => exact absurd rfl hsome
  | free _ _ _ ih => exact ih hsome
  | @emit q r s rule next emits hstate hmem hrest ih =>
    by_cases hnone : emits = []
    · exact fun due hdue => h.after hstate hmem due (hrest.due hnone hdue)
    · exact ih hnone

/-- In an orderly table no free cycle leaves an emit state. -/
theorem emitAcyclic (h : Orderly a.states) : a.EmitAcyclic := by
  intro q emits hcycle
  rcases h.emits_of_freePath hcycle with hnone | ⟨e, hemits, hdue⟩
  · exact hnone
  · cases h.nothingDue_of_freePath hcycle (by rw [hemits]; exact List.cons_ne_nil _ _) _ hdue

/-- A free path with the state that ends a step after it leaves at most one emit state, and then the
one that is due. -/
theorem emits_of_ends (h : Orderly a.states) {q r target : Nat} {symbol : Symbol}
    {emits extra : List Nat} (hpath : FreePath a q emits r) (hends : a.Ends symbol r extra target) :
    emits ++ extra = [] ∨ ∃ e, emits ++ extra = [e] ∧ Due a.states q (some e) := by
  cases hends with
  | consume =>
    rw [List.append_nil]
    exact h.emits_of_freePath hpath
  | halt =>
    rw [List.append_nil]
    exact h.emits_of_freePath hpath
  | emit hstate =>
    have hdue : Due a.states a.accept (some a.accept) := .emit hstate
    by_cases hnone : emits = []
    · rw [hnone]
      exact .inr ⟨a.accept, rfl, hpath.due hnone hdue⟩
    · cases h.nothingDue_of_freePath hpath hnone _ hdue

/-- A step leaves at most one emit state, and then the one that is due. -/
theorem emits_of_mem_steps (h : Orderly a.states) {q : Nat} {symbol : Symbol} {step : Step}
    (hstep : step ∈ a.steps q symbol) :
    step.emits = [] ∨ ∃ e, step.emits = [e] ∧ Due a.states q (some e) := by
  obtain ⟨r, emits, extra, hpath, _, hends, heq⟩ := mem_steps_iff.mp hstep
  rw [heq]
  exact h.emits_of_ends hpath hends

end Orderly

/-- **The search for steps ends, and in the automaton of a grammar a step reports at most one
rule.**  Where no free cycle leaves an emit state, the loop that marks states together with the emit
states left on the way ends after some number of rounds, and then it has found the steps, from every
state and for every symbol.  The automaton of a grammar, whatever its shape, has no such cycle; from
its start a step leaves no emit state, and from any other state at most one. -/
theorem search_ends_and_emits_once :
    (∀ a : Automaton, a.EmitAcyclic → ∀ q symbol, ∃ rounds,
      ((Loop.round a symbol)^[rounds] (Loop.start q)).waiting = [] ∧
      ((Loop.round a symbol)^[rounds] (Loop.start q)).found = a.steps q symbol) ∧
    (∀ grammar : Grammar, grammar.automaton.EmitAcyclic ∧
      (∀ symbol, ∀ step ∈ grammar.automaton.steps grammar.automaton.start symbol,
        step.emits = []) ∧
      ∀ q symbol, ∀ step ∈ grammar.automaton.steps q symbol, step.emits.length ≤ 1) := by
  refine ⟨fun a h q symbol => h.exists_rounds q symbol, fun grammar => ?_⟩
  have horderly := grammar.orderly_automaton
  refine ⟨horderly.emitAcyclic, fun symbol step hstep => ?_, fun q symbol step hstep => ?_⟩
  · rcases horderly.emits_of_mem_steps hstep with hnone | ⟨e, _, hdue⟩
    · exact hnone
    · cases horderly.start _ hdue
  · rcases horderly.emits_of_mem_steps hstep with hnone | ⟨e, hemits, _⟩
    · rw [hnone]
      exact Nat.zero_le 1
    · rw [hemits]
      exact Nat.le_refl 1

/-- The grammar `((a?)*)+`, in which loops that read nothing are nested. -/
def nestedLoops : Grammar :=
  .quantified .plus (.quantified .star (.quantified .optional (.keyword "a")))

/-- The search ends in nested loops that read nothing. -/
theorem search_ends_and_emits_once_nestedLoops :
    nestedLoops.automaton.EmitAcyclic ∧ ∃ rounds,
      ((Loop.round nestedLoops.automaton .finish)^[rounds] (Loop.start 0)).waiting = [] ∧
      ∀ step ∈ ((Loop.round nestedLoops.automaton .finish)^[rounds] (Loop.start 0)).found,
        step.emits = [] := by
  obtain ⟨hloop, hgrammar⟩ := search_ends_and_emits_once
  obtain ⟨hacyclic, hstart, _⟩ := hgrammar nestedLoops
  obtain ⟨rounds, hends, hfound⟩ := hloop nestedLoops.automaton hacyclic 0 .finish
  refine ⟨hacyclic, rounds, hends, ?_⟩
  rw [hfound]
  exact hstart .finish

end Automaton
end CommandGrammar
