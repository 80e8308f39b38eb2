import CommandGrammar.Proofs.Automaton.Operations
import CommandGrammar.Proofs.Grammar.Building

/-!
# Tables without dead ends

A run that has come to a state of a table may be unable to go on to the end.  In the automaton of a
grammar this does not happen: from every state, whether a run can come there or not, a run can be
completed (`Grammar.coaccessible_automaton`).  Hence what has been read so far is the beginning of a
line as soon as some path is alive after it.

The operations on automata keep this.  A state of the whole is a state of one of its parts, from
where the part can be completed and left over its exit (`Hosts.canEnd`), or it is one of
the few states that the operation adds.
-/

namespace CommandGrammar

theorem Label.exists_accepts (label : Label) : ∃ text, label.accepts (.token text) = true := by
  cases label with
  | word text => exact ⟨text, by simp⟩
  | any => exact ⟨"", rfl⟩

namespace Automaton

/-- From a state a run can be completed. -/
def CanEnd (states : Array State) (q : Nat) : Prop := ∃ w, Completes states q w

/-- From every state of a table a run can be completed. -/
def Coaccessible (states : Array State) : Prop := ∀ q < states.size, CanEnd states q

/-! ## Parts of a table -/

/-- From inside a block a run can be completed if it can be completed in the part, and from one of
the exits of the block. -/
theorem Hosts.canEnd {whole part : Array State} {offset : Nat} {exits : List Nat}
    (h : Hosts whole offset part exits) (hpart : Coaccessible part) {x : Nat} (hx : x ∈ exits)
    (hexit : CanEnd whole x) {i : Nat} (hi : i < part.size) : CanEnd whole (offset + i) := by
  obtain ⟨u, hu⟩ := hpart i hi
  obtain ⟨v, hv⟩ := hexit
  exact ⟨u ++ v, h.completes hx hu hv⟩

theorem canEnd_of_back? {states : Array State} {last : State} (hback : states.back? = some last)
    (hfinal : last.isFinal = true) : CanEnd states (states.size - 1) :=
  ⟨last.closing, .exit hback hfinal⟩

/-- A run ends in a final state that is added to a table. -/
theorem canEnd_push {states : Array State} {last : State} (hfinal : last.isFinal = true) :
    CanEnd (states.push last) states.size := by
  have hback : (states.push last).back? = some last := Array.back?_push ..
  have hend := canEnd_of_back? hback hfinal
  rwa [Array.size_push, Nat.add_sub_cancel] at hend

/-- A table with one more state, in which a run ends. -/
theorem coaccessible_push {states : Array State} {last : State} (hfinal : last.isFinal = true)
    (h : ∀ q < states.size, CanEnd (states.push last) q) : Coaccessible (states.push last) := by
  intro q hq
  rw [Array.size_push] at hq
  by_cases hlast : q = states.size
  · rw [hlast]
    exact canEnd_push hfinal
  · exact h q (by omega)

section

variable {entries : List Nat} {states : Array State}

theorem canEnd_enclosed_exit : CanEnd (enclosed entries states) (states.size + 1) := by
  have hnil : [] ∈ completions (enclosed entries states) (states.size + 1) := by
    rw [completions_enclosed_exit]
    rfl
  exact ⟨[], hnil⟩

/-- A table between a new entry and a new exit. -/
theorem coaccessible_enclosed {entry : Nat} (hentry : entry ∈ entries)
    (hends : CanEnd (enclosed entries states) entry)
    (h : ∀ i < states.size, CanEnd (enclosed entries states) (1 + i)) :
    Coaccessible (enclosed entries states) := by
  intro q hq
  rw [size_enclosed] at hq
  by_cases hfirst : q = 0
  · obtain ⟨w, hw⟩ := hends
    rw [hfirst]
    exact ⟨[] ++ w, .move getElem?_zero_enclosed (.free hentry) hw⟩
  · by_cases hlast : q = states.size + 1
    · rw [hlast]
      exact canEnd_enclosed_exit
    · have hinside := h (q - 1) (by omega)
      rwa [Nat.add_sub_cancel' (by omega)] at hinside

end

/-! ## The operations -/

theorem coaccessible_trivial : Coaccessible trivial.states := by
  intro q hq
  obtain rfl : q = 0 := Nat.lt_one_iff.mp hq
  exact @canEnd_of_back? trivial.states .halt rfl rfl

theorem coaccessible_consuming (label : Label) : Coaccessible (consuming label).states := by
  have hend : CanEnd (consuming label).states 1 :=
    @canEnd_of_back? (consuming label).states .halt rfl rfl
  have hentry : (consuming label).states[0]? = some (.consume (.single label 1)) := rfl
  obtain ⟨text, htext⟩ := label.exists_accepts
  intro q hq
  have hq : q < 2 := hq
  by_cases hfirst : q = 0
  · obtain ⟨w, hw⟩ := hend
    rw [hfirst]
    exact ⟨[.read text] ++ w, .move hentry (.read List.mem_cons_self htext) hw⟩
  · obtain rfl : q = 1 := by omega
    exact hend

theorem coaccessible_followedBy {states whole : Array State} {part : Automaton} (h : Sound states)
    (hstates : Coaccessible states) (hpart : Coaccessible part.states)
    (hrun : followedBy states part = .ok whole) : Coaccessible whole := by
  obtain ⟨hsize, hhosts, hsame⟩ := hosts_of_followedBy h hrun
  have hpos : 0 < part.size := part.nonempty
  have hsecond : ∀ i < part.size, CanEnd whole (states.size + i) := by
    intro i hi
    obtain ⟨w, hw⟩ := hpart i hi
    refine ⟨w, ?_⟩
    rw [← mem_completions_iff, completions_of_extends hsize hsame part.closed hi]
    exact hw
  intro q hq
  by_cases hfirst : q < states.size
  · have hinside := hhosts.canEnd hstates List.mem_cons_self (hsecond 0 hpos) hfirst
    rwa [Nat.zero_add] at hinside
  · have hinside := hsecond (q - states.size) (by omega)
    rwa [Nat.add_sub_cancel' (by omega)] at hinside

/-- From every state of parts that stand side by side a run can be completed, if it can be completed
from where they all lead. -/
theorem canEnd_of_beside {parts : List Automaton}
    (h : ∀ part ∈ parts, Sound part.states ∧ Coaccessible part.states)
    {whole states : Array State} {entries : List Nat} {exit offset : Nat}
    (hrun : beside exit offset parts = .ok (entries, states))
    (hwhole : ∀ i < states.size, whole[offset + i]? = states[i]?) (hexit : CanEnd whole exit) :
    ∀ i < states.size, CanEnd whole (offset + i) := by
  induction parts generalizing offset entries states with
  | nil =>
    cases hrun
    exact fun i hi => absurd hi (Nat.not_lt_zero i)
  | cons part rest ih =>
    obtain ⟨hsound, hpart⟩ := h part List.mem_cons_self
    obtain ⟨hhosts, others, after, _, hbeside, hsize, hafter⟩ :=
      hosts_of_beside_cons hsound hrun hwhole
    have hothers := ih (fun p hp => h p (List.mem_cons_of_mem _ hp)) hbeside hafter
    intro i hi
    by_cases hfirst : i < part.size
    · exact hhosts.canEnd hpart List.mem_cons_self hexit hfirst
    · have hlater := hothers (i - part.size) (by omega)
      rwa [Nat.add_assoc, Nat.add_sub_cancel' (by omega)] at hlater

theorem coaccessible_union {parts : List Automaton} {whole : Automaton}
    (hlength : 2 ≤ parts.length)
    (h : ∀ part ∈ parts, Sound part.states ∧ Coaccessible part.states)
    (hrun : union parts = .ok whole) : Coaccessible whole.states := by
  have hsound : ∀ part ∈ parts, Sound part.states := fun p hp => (h p hp).1
  obtain ⟨entries, states, hbeside, hwhole⟩ := exists_beside_of_union hsound hlength hrun
  have hinside : ∀ i < states.size, (enclosed entries states)[1 + i]? = states[i]? :=
    fun i hi => getElem?_succ_enclosed hi
  have hends := canEnd_of_beside h hbeside hinside canEnd_enclosed_exit
  obtain ⟨first, rest, rfl⟩ := List.exists_cons_of_length_pos (by omega : 0 < parts.length)
  obtain ⟨_, others, after, rfl, _, hsize, _⟩ :=
    hosts_of_beside_cons (hsound first List.mem_cons_self) hbeside hinside
  have hpos : 0 < first.size := first.nonempty
  rw [hwhole]
  exact coaccessible_enclosed List.mem_cons_self (hends 0 (by omega)) hends

/-- A part that may be passed by, between a new entry and a new exit. -/
theorem coaccessible_of_hosts_enclosed {part block : Array State} {exits : List Nat}
    (hsize : block.size = part.size) (hpart : Coaccessible part)
    (hhosts : Hosts (enclosed [1, part.size + 1] block) 1 part exits)
    (hexit : part.size + 1 ∈ exits) : Coaccessible (enclosed [1, part.size + 1] block) := by
  have hend : CanEnd (enclosed [1, part.size + 1] block) (part.size + 1) := by
    rw [← hsize]
    exact canEnd_enclosed_exit
  refine coaccessible_enclosed (List.mem_cons_of_mem _ List.mem_cons_self) hend fun i hi => ?_
  exact hhosts.canEnd hpart hexit hend (by omega)

/-- A part that goes on to one more state, in which a run ends. -/
theorem coaccessible_of_hosts_push {part block : Array State} {exits : List Nat} {last : State}
    (hsize : block.size = part.size) (hpart : Coaccessible part)
    (hhosts : Hosts (block.push last) 0 part exits) (hexit : part.size ∈ exits)
    (hfinal : last.isFinal = true) : Coaccessible (block.push last) := by
  have hend : CanEnd (block.push last) part.size := by
    rw [← hsize]
    exact canEnd_push hfinal
  refine coaccessible_push hfinal fun q hq => ?_
  have hinside := hhosts.canEnd hpart hexit hend (hsize ▸ hq)
  rwa [Nat.zero_add] at hinside

theorem coaccessible_quantify {quantifier : Quantifier} {part whole : Automaton}
    (h : Sound part.states) (hpart : Coaccessible part.states)
    (hrun : quantify quantifier part = .ok whole) : Coaccessible whole.states := by
  cases quantifier with
  | star =>
    obtain ⟨block, hsize, hwhole, hhosts⟩ := hosts_of_star h hrun
    rw [hwhole] at hhosts ⊢
    exact coaccessible_of_hosts_enclosed hsize hpart hhosts
      (List.mem_cons_of_mem _ List.mem_cons_self)
  | plus =>
    obtain ⟨block, hsize, hwhole, hhosts⟩ := hosts_of_plus h hrun
    rw [hwhole] at hhosts ⊢
    exact coaccessible_of_hosts_push hsize hpart hhosts
      (List.mem_cons_of_mem _ List.mem_cons_self) rfl
  | optional =>
    obtain ⟨block, hsize, hwhole, hhosts⟩ := hosts_of_optional h hrun
    rw [hwhole] at hhosts ⊢
    exact coaccessible_of_hosts_enclosed hsize hpart hhosts List.mem_cons_self

theorem coaccessible_emitting {part whole : Automaton} {rule : Rule} (h : Sound part.states)
    (hpart : Coaccessible part.states) (hrun : part.emitting rule = .ok whole) :
    Coaccessible whole.states := by
  obtain ⟨block, hsize, hwhole, hhosts⟩ := hosts_of_emitting h hrun
  rw [hwhole] at hhosts ⊢
  exact coaccessible_of_hosts_push hsize hpart hhosts List.mem_cons_self rfl

end Automaton

/-! ## The automaton of a grammar -/

theorem Rule.coaccessible_build {rule : Rule} {a : Automaton} (h : rule.build = .ok a) :
    Automaton.Coaccessible a.states := by
  cases rule with
  | keyword word =>
    exact Automaton.coaccessible_emitting (Automaton.sound_consuming _)
      (Automaton.coaccessible_consuming _) h
  | capture tags =>
    have hsound := Automaton.sound_consuming .any
    obtain ⟨run, hplus, hsoundRun⟩ := Automaton.exists_plus hsound
    have hemit : run.emitting (.capture tags) = .ok a := by
      simpa [Rule.build, hplus, bind, Except.bind] using h
    have hrun : Automaton.Coaccessible run.states :=
      @Automaton.coaccessible_quantify .plus _ _ hsound (Automaton.coaccessible_consuming .any) hplus
    exact Automaton.coaccessible_emitting hsoundRun hrun hemit

/-- The operations on automata add no dead ends. -/
theorem Automaton.kept_coaccessible : Automaton.Kept Automaton.Coaccessible where
  leaf := Rule.coaccessible_build
  trivial := Automaton.coaccessible_trivial
  followedBy hsound hstates _ hpart hrun :=
    Automaton.coaccessible_followedBy hsound hstates hpart hrun
  union := Automaton.coaccessible_union
  quantify := Automaton.coaccessible_quantify

/-- The automaton of a grammar has no dead ends: from each of its states a run can be completed. -/
theorem Grammar.coaccessible_automaton (grammar : Grammar) :
    Automaton.Coaccessible grammar.automaton.states :=
  of_kept Automaton.kept_coaccessible grammar

end CommandGrammar
