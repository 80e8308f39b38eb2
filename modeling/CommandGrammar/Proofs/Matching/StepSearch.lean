import CommandGrammar.Proofs.Matching.Closure
import CommandGrammar.Proofs.RecursiveSearch

/-!
# The steps that are found, and their order

The steps from a state are found by a search that keeps a list of visits to be made, and marks each
of them together with the emit states left on the way.  Here this is compared with two descriptions
that know nothing of the list.

The first says which steps there are.  Where no free cycle leaves an emit state, no free path leaves
the same emit state twice, and the steps are the free paths that come to where a step ends, all of
them and no others (`mem_steps_iff_of_emitAcyclic`); `ends_iff` spells out where that is.

The second says in which order they come.  It is that of a recursion over the free transitions which
tries the first of several ways first (`visitSteps`), and within a state that consumes it is that of
the labels (`Transitions.pairwise_precedes`).
-/

namespace CommandGrammar

/-! ## The order of labels -/

namespace Label

/-- Words come before the label for any token, and two words in the order of their characters, which
is that of the code points. -/
def Precedes : Label → Label → Prop
  | .word first, .word second => first.toList < second.toList
  | .word _, .any => True
  | .any, _ => False

theorem compare_eq_lt_iff {first second : Label} :
    compare first second = .lt ↔ first.Precedes second := by
  cases first with
  | word s =>
    cases second with
    | word t =>
      show compareLex (compareOn rank) (compareOn text) (word s) (word t) = .lt ↔
        s.toList < t.toList
      rw [← String.lt_iff, ← @compareOfLessAndEq_eq_lt String]
      rfl
    | any => exact iff_of_true rfl trivial
  | any =>
    cases second with
    | word t => exact iff_of_false (fun h : Ordering.gt = .lt => by cases h) id
    | any => exact iff_of_false (fun h : Ordering.eq = .lt => by cases h) id

end Label

/-- The transitions of a state come in the order of their labels. -/
theorem Transitions.pairwise_precedes (transitions : Transitions) :
    transitions.labels.Pairwise Label.Precedes :=
  transitions.ascending.imp Label.compare_eq_lt_iff.mp

namespace Automaton

variable {a : Automaton}

/-! ## Which steps there are -/

/-- Where a step ends: over a transition that accepts the symbol, or at the end mark in the
accepting state, if that has no way on. -/
theorem ends_iff {symbol : Symbol} {r target : Nat} {extra : List Nat} :
    a.Ends symbol r extra target ↔
      (∃ transitions label, a.state? r = some (.consume transitions) ∧
        (label, target) ∈ transitions.toList ∧ label.accepts symbol = true ∧ extra = []) ∨
      (symbol = .finish ∧ r = a.accept ∧ a.state? r = some .halt ∧ target = r ∧ extra = []) ∨
      (symbol = .finish ∧ r = a.accept ∧ (∃ rule, a.state? r = some (.emit rule [])) ∧
        target = r ∧ extra = [r]) := by
  constructor
  · intro h
    cases h with
    | consume hstate hmem haccepts => exact .inl ⟨_, _, hstate, hmem, haccepts, rfl⟩
    | halt hstate => exact .inr (.inl ⟨rfl, rfl, hstate, rfl, rfl⟩)
    | emit hstate => exact .inr (.inr ⟨rfl, rfl, ⟨_, hstate⟩, rfl, rfl⟩)
  · rintro (⟨_, _, hstate, hmem, haccepts, rfl⟩ | ⟨rfl, rfl, hstate, rfl, rfl⟩ |
      ⟨rfl, rfl, ⟨rule, hstate⟩, rfl, rfl⟩)
    · exact .consume hstate hmem haccepts
    · exact .halt hstate
    · exact .emit hstate

/-- Where no free cycle leaves an emit state, no free path leaves one twice. -/
theorem EmitAcyclic.nodup (h : a.EmitAcyclic) {q s : Nat} {emits : List Nat}
    (hpath : FreePath a q emits s) : emits.Nodup := by
  induction hpath with
  | refl q => exact List.nodup_nil
  | free _ _ _ ih => exact ih
  | @emit q r s rule next emits hstate hmem hrest ih =>
    refine List.nodup_cons.mpr ⟨fun hq => ?_, ih⟩
    obtain ⟨before, after, _, hback, _⟩ := hrest.exists_split hq
    exact List.cons_ne_nil _ _ (h q _ (.emit hstate hmem hback))

theorem mem_steps_iff_of_emitAcyclic (h : a.EmitAcyclic) {q : Nat} {symbol : Symbol} {step : Step} :
    step ∈ a.steps q symbol ↔ ∃ r emits extra, FreePath a q emits r ∧
      a.Ends symbol r extra step.target ∧ step.emits = emits ++ extra := by
  rw [mem_steps_iff]
  constructor
  · rintro ⟨r, emits, extra, hpath, _, hends⟩
    exact ⟨r, emits, extra, hpath, hends⟩
  · rintro ⟨r, emits, extra, hpath, hends⟩
    exact ⟨r, emits, extra, hpath, h.nodup hpath, hends⟩

/-- There is no free way on from a final state. -/
theorem FreePath.eq_of_isFinal {q s : Nat} {emits : List Nat} (hpath : FreePath a q emits s)
    {state : State} (hstate : a.state? q = some state) (hfinal : state.isFinal = true) : s = q := by
  cases hpath with
  | refl => rfl
  | free hfree =>
    rw [hstate] at hfree
    cases hfree
    cases hfinal
  | emit hemit hmem =>
    rw [hstate] at hemit
    cases hemit
    rcases State.isFinal_iff.mp hfinal with heq | ⟨rule, heq⟩
    · cases heq
    · cases heq
      cases hmem

/-- There is no step from a final state that does not accept. -/
theorem steps_eq_nil_of_isFinal {q : Nat} {state : State} (hstate : a.state? q = some state)
    (hfinal : state.isFinal = true) (haccept : q ≠ a.accept) (symbol : Symbol) :
    a.steps q symbol = [] := by
  rw [List.eq_nil_iff_forall_not_mem]
  intro step hstep
  obtain ⟨r, emits, extra, hpath, _, hends, _⟩ := mem_steps_iff.mp hstep
  obtain rfl := hpath.eq_of_isFinal hstate hfinal
  rcases ends_iff.mp hends with ⟨transitions, _, hconsume, _⟩ | ⟨_, heq, _⟩ | ⟨_, heq, _⟩
  · rw [hstate] at hconsume
    cases hconsume
    cases hfinal
  · exact haccept heq
  · exact haccept heq

/-- **Steps are the successors along free paths.**  Where no free cycle leaves an emit state, there
is a step from a state across a symbol exactly if a free path leads from the state to one of three
places: to a state with a transition that accepts the symbol, which the step takes; or, if the
symbol is the end mark, to the accepting state, where the step stays, if that halts; or if it emits
a rule and has no way on.  The emit states of the step are those that the path leaves, in order, and
in the last case the accepting state after them.  From any other state that halts, or emits a rule
and has no way on, there is no step. -/
theorem steps_are_free_path_successors (h : a.EmitAcyclic) :
    (∀ q symbol emits target, (⟨emits, target⟩ : Step) ∈ a.steps q symbol ↔
      ∃ r crossed, FreePath a q crossed r ∧
        ((∃ transitions label, a.state? r = some (.consume transitions) ∧
            (label, target) ∈ transitions.toList ∧ label.accepts symbol = true ∧
            emits = crossed) ∨
          (symbol = .finish ∧ r = a.accept ∧ a.state? r = some .halt ∧ target = r ∧
            emits = crossed) ∨
          (symbol = .finish ∧ r = a.accept ∧ (∃ rule, a.state? r = some (.emit rule [])) ∧
            target = r ∧ emits = crossed ++ [r]))) ∧
    ∀ r, r ≠ a.accept →
      (a.state? r = some .halt ∨ ∃ rule, a.state? r = some (.emit rule [])) →
      ∀ symbol, a.steps r symbol = [] := by
  refine ⟨fun q symbol emits target => ?_, fun r haccept hstate symbol => ?_⟩
  · rw [mem_steps_iff_of_emitAcyclic h]
    simp only [ends_iff]
    constructor
    · rintro ⟨r, crossed, extra, hpath, hends, rfl⟩
      refine ⟨r, crossed, hpath, ?_⟩
      rcases hends with ⟨transitions, label, hstate, hmem, haccepts, rfl⟩ |
        ⟨hsymbol, hr, hstate, htarget, rfl⟩ | ⟨hsymbol, hr, hstate, htarget, rfl⟩
      · exact .inl ⟨transitions, label, hstate, hmem, haccepts, List.append_nil _⟩
      · exact .inr (.inl ⟨hsymbol, hr, hstate, htarget, List.append_nil _⟩)
      · exact .inr (.inr ⟨hsymbol, hr, hstate, htarget, rfl⟩)
    · rintro ⟨r, crossed, hpath, ⟨transitions, label, hstate, hmem, haccepts, rfl⟩ |
        ⟨hsymbol, hr, hstate, htarget, rfl⟩ | ⟨hsymbol, hr, hstate, htarget, rfl⟩⟩
      · exact ⟨r, _, [], hpath, .inl ⟨transitions, label, hstate, hmem, haccepts, rfl⟩,
          (List.append_nil _).symm⟩
      · exact ⟨r, _, [], hpath, .inr (.inl ⟨hsymbol, hr, hstate, htarget, rfl⟩),
          (List.append_nil _).symm⟩
      · exact ⟨r, _, [r], hpath, .inr (.inr ⟨hsymbol, hr, hstate, htarget, rfl⟩), rfl⟩
  · rcases hstate with hstate | ⟨rule, hstate⟩
    · exact steps_eq_nil_of_isFinal hstate rfl haccept symbol
    · exact steps_eq_nil_of_isFinal hstate rfl haccept symbol

/-- The grammar `(ITEM*)*`.  Free transitions lead from state 1 to state 6 and back. -/
def looped : Grammar := .quantified .star (.quantified .star (.capture ["ITEM"]))

/-- A span is claimed, and the next token is read or the line ends, past the states of the cycle. -/
theorem steps_are_free_path_successors_looped :
    looped.automaton.EmitAcyclic ∧
      ⟨[5], 3⟩ ∈ looped.automaton.steps 3 (.token "sword") ∧
      ⟨[5], 7⟩ ∈ looped.automaton.steps 3 .finish := by
  have hacyclic := looped.orderly_automaton.emitAcyclic
  have hclaim (q : Nat) (hq : FreePath looped.automaton 6 [] q) :
      FreePath looped.automaton 3 [5] q :=
    .free (by decide +kernel : looped.automaton.state? 3 = some (.free [2, 4])) (by simp)
      (.free (by decide +kernel : looped.automaton.state? 4 = some (.free [5])) (by simp)
        (.emit (by decide +kernel : looped.automaton.state? 5 =
          some (.emit (.capture ["ITEM"]) [2, 6])) (by simp) hq))
  have hback : looped.automaton.state? 6 = some (.free [1, 7]) := by decide +kernel
  have hagain : looped.automaton.state? 1 = some (.free [2, 6]) := by decide +kernel
  obtain ⟨hsteps, _⟩ := steps_are_free_path_successors hacyclic
  refine ⟨hacyclic, (hsteps ..).mpr ⟨2, [5], hclaim 2 ?_, .inl ⟨.single .any 3, .any, ?_⟩⟩,
    (hsteps ..).mpr ⟨7, [5], hclaim 7 ?_, .inr (.inl ?_)⟩⟩
  · exact .free hback (by simp) (.free hagain (by simp) (.refl 2))
  · exact ⟨by decide +kernel, by decide, by decide, rfl⟩
  · exact .free hback (by simp) (.refl 7)
  · exact ⟨rfl, by decide +kernel, by decide +kernel, rfl, rfl⟩

/-! ## The order of the steps -/

/-- The steps from a state across a symbol, found by recursion over the free transitions: a visit
that has been made yields nothing; any other yields the steps that end there, and after them those
of the visits that follow it, from first to last. -/
def visitSteps (a : Automaton) (q : Nat) (symbol : Symbol) : Option (List Step) :=
  (Search.Progress.visit a.following (a.taken symbol) ⟨∅, []⟩ ⟨q, []⟩).map (·.output)

/-- The recursion ends with the steps that the search finds. -/
theorem visitSteps_eq_steps (h : a.EmitAcyclic) (q : Nat) (symbol : Symbol) :
    a.visitSteps q symbol = some (a.steps q symbol) := by
  have hsame : ∀ visit : Visit, FreePath a q visit.emits visit.state →
      a.onward visit = a.following visit :=
    fun visit hpath => onward_eq_following (h.not_mem hpath)
  have hkept : ∀ visit : Visit, FreePath a q visit.emits visit.state →
      ∀ after ∈ a.onward visit, FreePath a q after.emits after.state := by
    intro visit hpath after hafter
    rw [hsame visit hpath] at hafter
    exact freePath_of_mem_following hpath hafter
  obtain ⟨marked, hvisit⟩ := @Search.exists_visit _ _ _ _ _ _ _ (a.taken symbol) (a.region q)
    _ hsame hkept ⟨q, []⟩ ⟨.inl rfl, List.nodup_nil, by simp⟩ (.refl q)
  rw [visitSteps, hvisit]
  rfl

/-- **The steps come in the order of a recursive search.**  Where no free cycle leaves an emit
state, the recursion over the free transitions ends, from every state and for every symbol, and what
it finds is the list of the steps, in the same order and with the same repetitions.  At a state that
consumes, it finds the transitions that accept the symbol in the order of their labels: words by
their code points, then the label for any token. -/
theorem steps_in_recursive_order (h : a.EmitAcyclic) (q : Nat) (symbol : Symbol) :
    a.visitSteps q symbol = some (a.steps q symbol) ∧
    ∀ visit transitions, a.state? visit.state = some (.consume transitions) →
      a.taken symbol visit = ((transitions.toList.filter fun t => t.1.accepts symbol).map
        fun t => ⟨visit.emits, t.2⟩) ∧
      (transitions.toList.map Prod.fst).Pairwise Label.Precedes := by
  refine ⟨visitSteps_eq_steps h q symbol, fun visit transitions hstate => ?_⟩
  rw [taken, hstate]
  exact ⟨rfl, transitions.pairwise_precedes⟩

theorem steps_looped :
    looped.automaton.steps 3 (.token "sword") = [⟨[], 3⟩, ⟨[5], 3⟩] := by
  -- the visits in the order in which they are made, with what follows each and what it finds
  have hvisits : ([⟨3, []⟩, ⟨2, []⟩, ⟨4, []⟩, ⟨5, []⟩, ⟨2, [5]⟩, ⟨6, [5]⟩, ⟨1, [5]⟩, ⟨7, [5]⟩] :
      List Visit).map (fun visit =>
        (looped.automaton.onward visit, looped.automaton.taken (.token "sword") visit)) =
      [([⟨2, []⟩, ⟨4, []⟩], []), ([], [⟨[], 3⟩]), ([⟨5, []⟩], []), ([⟨2, [5]⟩, ⟨6, [5]⟩], []),
        ([], [⟨[5], 3⟩]), ([⟨1, [5]⟩, ⟨7, [5]⟩], []), ([⟨2, [5]⟩, ⟨6, [5]⟩], []), ([], [])] := by
    decide +kernel
  simp only [List.map_cons, List.map_nil, List.cons.injEq, Prod.mk.injEq] at hvisits
  unfold steps Search.exploreFrom
  simp only [Search.explore_cons_of_fresh, Search.explore_cons_of_visited, Search.explore_nil,
    hvisits, Std.HashSet.contains_insert, Std.HashSet.contains_empty, Bool.or_eq_true,
    Bool.or_eq_false_iff, beq_iff_eq, beq_eq_false_iff_ne, Visit.mk.injEq, Nat.reduceEqDiff,
    reduceCtorEq, List.cons_append, List.nil_append, List.append_nil, ne_eq, not_false_eq_true,
    and_false, false_and, and_self, or_true, true_or]

/-- The recursion ends although it comes back to state 6. -/
theorem steps_in_recursive_order_looped :
    looped.automaton.EmitAcyclic ∧
      looped.automaton.visitSteps 3 (.token "sword") = some [⟨[], 3⟩, ⟨[5], 3⟩] := by
  have hacyclic := looped.orderly_automaton.emitAcyclic
  obtain ⟨hvisit, _⟩ := steps_in_recursive_order hacyclic 3 (.token "sword")
  exact ⟨hacyclic, hvisit.trans (congrArg some steps_looped)⟩

end Automaton
end CommandGrammar
