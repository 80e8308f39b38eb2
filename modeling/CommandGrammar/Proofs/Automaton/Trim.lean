import Mathlib.Logic.Relation
import CommandGrammar.Proofs.Automaton.Coaccessible
import CommandGrammar.Proofs.Automaton.Due

/-!
# Trim tables

A table may hold states that no run comes to, or that no run leaves.  The automaton of a grammar
holds neither: every state is reached from the start, and from every state the end is reached.  Nor
is there any choice where a token is read: a state that consumes has one transition, and the state
behind it goes on for free.  These are the facts that make a report of what was expected truthful.

That the end is reached is known from `Grammar.coaccessible_automaton`.  Everything else is said
state by state (`TrimAt`), so that it can be carried from a part to the whole:

* `Carries` describes a part inside of a table, its exit linked or left alone;
* `Carries.trimAt` says that the states of a trim part are trim in the whole, as soon as the entry
  of the part is reached;
* `Hosts.canReach_exit` says that the exits of a part are reached when its entry is.

The operations on automata reach the entries of their parts from the start, or over the exit of the
part before, and the few states that they add are looked at by themselves (`kept_trim`).
-/

namespace CommandGrammar

namespace State

theorem successors_of_isFinal {state : State} (h : state.isFinal = true) :
    state.successors = [] := by
  rcases isFinal_iff.mp h with rfl | ⟨rule, rfl⟩
  · rfl
  · rfl

theorem leadingTo_ne_consume {last : State} (h : last.isFinal = true) {exits : List Nat}
    {transitions : Transitions} : last.leadingTo exits ≠ .consume transitions := by
  rcases isFinal_iff.mp h with rfl | ⟨rule, rfl⟩
  · nofun
  · nofun

/-- A final state that goes on for free has the ways on that it was given. -/
theorem leadingTo_eq_free {last : State} (h : last.isFinal = true) {exits next : List Nat}
    (heq : last.leadingTo exits = .free next) : exits = next := by
  rcases isFinal_iff.mp h with rfl | ⟨rule, rfl⟩
  · exact State.free.inj heq
  · cases heq

theorem successors_leadingTo {last : State} (h : last.isFinal = true) (exits : List Nat) :
    (last.leadingTo exits).successors = exits := by
  rcases isFinal_iff.mp h with rfl | ⟨rule, rfl⟩
  · rfl
  · rfl

theorem shift_eq_consume_iff {state : State} {offset : Nat} {transitions : Transitions} :
    state.shift offset = .consume transitions ↔
      ∃ before, state = .consume before ∧ before.shift offset = transitions := by
  cases state <;> simp [shift]

end State

namespace Automaton

open Relation (ReflTransGen)

/-- A transition leads from one state of a table to another, for free or over a token. -/
def LeadsOn (states : Array State) (q r : Nat) : Prop :=
  ∃ state, states[q]? = some state ∧ r ∈ state.successors

/-- Transitions lead from one state of a table to another, any number of them. -/
def CanReach (states : Array State) : Nat → Nat → Prop := ReflTransGen (LeadsOn states)

/-- A state is reached from the start; if it consumes, it does so over one transition, behind which
the table goes on for free; and if it goes on for free, there is a state to go on to. -/
structure TrimAt (states : Array State) (q : Nat) : Prop where
  reached : CanReach states 0 q
  single : ∀ {transitions}, states[q]? = some (.consume transitions) →
    ∃ label target next, transitions = .single label target ∧
      states[target]? = some (.free next)
  onward : ∀ {next}, states[q]? = some (.free next) → next ≠ []

/-- Every state of a table is trim. -/
def Trim (states : Array State) : Prop := ∀ q < states.size, TrimAt states q

variable {states whole part : Array State} {offset q : Nat}

/-! ## Single states -/

/-- A completed run leads to the last state. -/
theorem Completes.canReach {w : List Action} (h : Completes states q w) :
    CanReach states q (states.size - 1) := by
  induction h with
  | exit _ _ => exact .refl
  | move hstate hmove _ ih => exact .head ⟨_, hstate, hmove.mem_successors⟩ ih

/-- Where every state leads on to the next one, all of them are reached. -/
theorem canReach_of_consecutive (h : ∀ i, i + 1 < states.size → LeadsOn states i (i + 1))
    (hq : q < states.size) : CanReach states 0 q := by
  induction q with
  | zero => exact .refl
  | succ i ih => exact .tail (ih (by omega)) (h i hq)

theorem trimAt_of_isFinal {last : State} (hstate : states[q]? = some last)
    (hfinal : last.isFinal = true) (hreached : CanReach states 0 q) : TrimAt states q where
  reached := hreached
  single := by
    intro transitions hconsume
    rw [hstate] at hconsume
    cases hconsume
    cases hfinal
  onward := by
    intro next hfree
    rw [hstate] at hfree
    cases hfree
    cases hfinal

theorem trimAt_of_free {next : List Nat} (hstate : states[q]? = some (.free next))
    (hne : next ≠ []) (hreached : CanReach states 0 q) : TrimAt states q where
  reached := hreached
  single := by
    intro transitions hconsume
    rw [hstate] at hconsume
    cases hconsume
  onward := by
    intro next' hfree
    rw [hstate] at hfree
    cases hfree
    exact hne

/-! ## Parts of a table -/

/-- A part stands in a table from `offset` on, except that a final state of it may have been given
ways on. -/
def Carries (whole : Array State) (offset : Nat) (part : Array State) : Prop :=
  ∀ i < part.size, whole[offset + i]? = part[i]?.map (State.shift offset) ∨
    ∃ last exits, part[i]? = some last ∧ last.isFinal = true ∧ exits ≠ [] ∧
      whole[offset + i]? = some (last.leadingTo exits)

theorem Hosts.carries {exits : List Nat} (h : Hosts whole offset part exits) (hne : exits ≠ []) :
    Carries whole offset part := by
  intro i hi
  rcases h.inner_or_exit hi with hsame | ⟨last, hlast, hfinal, hexit⟩
  · exact .inl hsame
  · exact .inr ⟨last, exits, hlast, hfinal, hne, hexit⟩

namespace Carries

/-- Inside of a table the transitions of a part lead where they did. -/
theorem leadsOn (h : Carries whole offset part) {i j : Nat} (hlead : LeadsOn part i j) :
    LeadsOn whole (offset + i) (offset + j) := by
  obtain ⟨state, hstate, hmem⟩ := hlead
  rcases h i (Array.getElem?_eq_some_iff.mp hstate).1 with hsame | ⟨last, _, hlast, hfinal, _, _⟩
  · refine ⟨state.shift offset, by rw [hsame, hstate]; rfl, ?_⟩
    rw [State.successors_shift, Nat.add_comm offset j]
    exact List.mem_map_of_mem hmem
  · -- a final state leads nowhere in the part
    rw [hlast] at hstate
    cases hstate
    rw [State.successors_of_isFinal hfinal] at hmem
    cases hmem

theorem canReach (h : Carries whole offset part) {i j : Nat} (hreach : CanReach part i j) :
    CanReach whole (offset + i) (offset + j) :=
  ReflTransGen.lift (offset + ·) (fun _ _ => h.leadsOn) _ _ hreach

/-- A state of a part that goes on for free does so in the whole. -/
theorem exists_free (h : Carries whole offset part) {i : Nat} {next : List Nat}
    (hstate : part[i]? = some (.free next)) :
    ∃ after, whole[offset + i]? = some (.free after) := by
  rcases h i (Array.getElem?_eq_some_iff.mp hstate).1 with hsame | ⟨last, _, hlast, hfinal, _, _⟩
  · exact ⟨next.map (· + offset), by rw [hsame, hstate]; rfl⟩
  · rw [hlast] at hstate
    cases hstate
    cases hfinal

/-- The states of a trim part are trim in the whole, if the entry of the part is reached. -/
theorem trimAt (h : Carries whole offset part) (hpart : Trim part)
    (hentry : CanReach whole 0 offset) {i : Nat} (hi : i < part.size) :
    TrimAt whole (offset + i) where
  reached := hentry.trans (h.canReach (hpart i hi).reached)
  single := by
    intro transitions hconsume
    rcases h i hi with hsame | ⟨last, exits, _, hfinal, _, hexit⟩
    · rw [hsame] at hconsume
      obtain ⟨state, hstate, hshift⟩ := Option.map_eq_some_iff.mp hconsume
      obtain ⟨before, rfl, rfl⟩ := State.shift_eq_consume_iff.mp hshift
      obtain ⟨label, target, next, rfl, hfree⟩ := (hpart i hi).single hstate
      obtain ⟨after, hafter⟩ := h.exists_free hfree
      rw [Nat.add_comm] at hafter
      exact ⟨label, target + offset, after, rfl, hafter⟩
    · rw [hexit] at hconsume
      exact absurd (Option.some.inj hconsume) (State.leadingTo_ne_consume hfinal)
  onward := by
    intro next hfree
    rcases h i hi with hsame | ⟨last, exits, _, hfinal, hne, hexit⟩
    · rw [hsame] at hfree
      obtain ⟨state, hstate, hshift⟩ := Option.map_eq_some_iff.mp hfree
      obtain ⟨before, rfl, rfl⟩ := State.shift_eq_free_iff.mp hshift
      rw [Ne, List.map_eq_nil_iff]
      exact (hpart i hi).onward hstate
    · rw [hexit] at hfree
      rwa [State.leadingTo_eq_free hfinal (Option.some.inj hfree)] at hne

end Carries

/-- From the entry of a trim part its exits are reached. -/
theorem Hosts.canReach_exit {exits : List Nat} (h : Hosts whole offset part exits)
    (hpart : Trim part) {x : Nat} (hx : x ∈ exits) : CanReach whole offset x := by
  have hpos := h.size_pos
  have hinside : CanReach whole offset (offset + (part.size - 1)) :=
    (h.carries (List.ne_nil_of_mem hx)).canReach (hpart (part.size - 1) (by omega)).reached
  obtain ⟨last, _, hfinal, hexit⟩ := h.exit
  refine hinside.tail ⟨last.leadingTo exits, hexit, ?_⟩
  rw [State.successors_leadingTo hfinal]
  exact hx

/-! ## Leaves -/

theorem trim_trivial : Trim trivial.states := by
  intro q hq
  obtain rfl : q = 0 := Nat.lt_one_iff.mp hq
  exact trimAt_of_isFinal (rfl : trivial.states[0]? = some .halt) rfl .refl

/-- A table whose states lead on one to the next, and that consumes over a single transition to the
second state only, where it goes on for free. -/
theorem trim_of_consecutive (h : Sound states) (label : Label)
    (hlead : ∀ i, i + 1 < states.size → LeadsOn states i (i + 1)) {next : List Nat}
    (hsecond : states[1]? = some (.free next))
    (hconsume : ∀ (q : Nat) transitions, states[q]? = some (.consume transitions) →
      transitions = .single label 1) : Trim states := by
  intro q hq
  refine ⟨canReach_of_consecutive hlead hq, fun hstate => ?_, fun hstate => ?_⟩
  · exact ⟨label, 1, next, hconsume q _ hstate, hsecond⟩
  · by_cases hinner : q + 1 < states.size
    · obtain ⟨state, hstate', hmem⟩ := hlead q hinner
      rw [hstate] at hstate'
      cases hstate'
      exact List.ne_nil_of_mem hmem
    · obtain ⟨last, hback, hfinal⟩ := h.final
      obtain rfl : q = states.size - 1 := by omega
      rw [back?_eq_some_getElem hback] at hstate
      cases hstate
      cases hfinal

end Automaton

theorem Rule.trim_build {rule : Rule} {a : Automaton} (h : rule.build = .ok a) :
    Automaton.Trim a.states := by
  obtain ⟨built, hbuild, hsound⟩ := rule.exists_build
  rw [h] at hbuild
  cases hbuild
  cases rule with
  | keyword word =>
    rw [states_build_keyword h] at hsound ⊢
    refine Automaton.trim_of_consecutive hsound (.word word) ?_ rfl ?_
    · rintro (_ | _ | i) hi
      · exact ⟨_, rfl, List.mem_cons_self⟩
      · exact ⟨_, rfl, List.mem_cons_self⟩
      · have hi : i + 3 < 3 := hi
        omega
    · rintro (_ | _ | _ | q) <;> simp
  | capture tags =>
    rw [states_build_capture h] at hsound ⊢
    refine Automaton.trim_of_consecutive hsound .any ?_ rfl ?_
    · rintro (_ | _ | _ | i) hi
      · exact ⟨_, rfl, List.mem_cons_self⟩
      · exact ⟨_, rfl, List.mem_cons_of_mem _ List.mem_cons_self⟩
      · exact ⟨_, rfl, List.mem_cons_self⟩
      · have hi : i + 4 < 4 := hi
        omega
    · rintro (_ | _ | _ | _ | q) <;> simp

namespace Automaton

/-! ## Operations -/

theorem trim_followedBy {states whole : Array State} {part : Automaton} (h : Sound states)
    (hstates : Trim states) (hpart : Trim part.states)
    (hrun : followedBy states part = .ok whole) : Trim whole := by
  obtain ⟨hsize, hhosts, hsame⟩ := hosts_of_followedBy h hrun
  have hfirst : Carries whole 0 states := hhosts.carries (List.cons_ne_nil _ _)
  have hsecond : Carries whole states.size part.states := fun i hi => .inl (hsame i hi)
  have hentry : CanReach whole 0 states.size := hhosts.canReach_exit hstates List.mem_cons_self
  intro q hq
  by_cases hbefore : q < states.size
  · have hinside := hfirst.trimAt hstates .refl hbefore
    rwa [Nat.zero_add] at hinside
  · have hlt : q - states.size < part.size := by omega
    have hinside := hsecond.trimAt hpart hentry hlt
    rwa [Nat.add_sub_cancel' (by omega)] at hinside

section

variable {entries : List Nat} {states : Array State}

theorem canReach_enclosed_entry {entry : Nat} (hentry : entry ∈ entries) :
    CanReach (enclosed entries states) 0 entry :=
  .single ⟨.free entries, getElem?_zero_enclosed, hentry⟩

/-- A table between a new entry and a new exit is trim if it is so inside, and if the exit is
reached. -/
theorem trim_enclosed (hne : entries ≠ [])
    (hexit : CanReach (enclosed entries states) 0 (states.size + 1))
    (h : ∀ i < states.size, TrimAt (enclosed entries states) (1 + i)) :
    Trim (enclosed entries states) := by
  intro q hq
  rw [size_enclosed] at hq
  by_cases hfirst : q = 0
  · rw [hfirst]
    exact trimAt_of_free getElem?_zero_enclosed hne .refl
  · by_cases hlast : q = states.size + 1
    · rw [hlast]
      exact trimAt_of_isFinal getElem?_enclosed_exit rfl hexit
    · have hinside := h (q - 1) (by omega)
      rwa [Nat.add_sub_cancel' (by omega)] at hinside

end

/-- Parts side by side are trim inside of a table that reaches all of their entries. -/
theorem trimAt_of_beside {parts : List Automaton}
    (h : ∀ part ∈ parts, Sound part.states ∧ Trim part.states)
    {whole states : Array State} {entries : List Nat} {exit offset : Nat}
    (hrun : beside exit offset parts = .ok (entries, states))
    (hwhole : ∀ i < states.size, whole[offset + i]? = states[i]?)
    (hentries : ∀ entry ∈ entries, CanReach whole 0 entry) :
    ∀ i < states.size, TrimAt whole (offset + i) := by
  induction parts generalizing offset entries states with
  | nil =>
    cases hrun
    exact fun i hi => absurd hi (Nat.not_lt_zero i)
  | cons part rest ih =>
    obtain ⟨hsound, hpart⟩ := h part List.mem_cons_self
    obtain ⟨hhosts, others, after, rfl, hbeside, hsize, hafter⟩ :=
      hosts_of_beside_cons hsound hrun hwhole
    obtain ⟨hentry, hothers⟩ := List.forall_mem_cons.mp hentries
    have hlater := ih (fun p hp => h p (List.mem_cons_of_mem _ hp)) hbeside hafter hothers
    intro i hi
    by_cases hfirst : i < part.size
    · exact (hhosts.carries (List.cons_ne_nil _ _)).trimAt hpart hentry hfirst
    · have hinside := hlater (i - part.size) (by omega)
      rwa [Nat.add_assoc, Nat.add_sub_cancel' (by omega)] at hinside

theorem trim_union {parts : List Automaton} {whole : Automaton} (hlength : 2 ≤ parts.length)
    (h : ∀ part ∈ parts, Sound part.states ∧ Trim part.states)
    (hrun : union parts = .ok whole) : Trim whole.states := by
  obtain ⟨entries, states, hbeside, hwhole⟩ :=
    exists_beside_of_union (fun part hpart => (h part hpart).1) hlength hrun
  have hinside : ∀ i < states.size, (enclosed entries states)[1 + i]? = states[i]? :=
    fun i hi => getElem?_succ_enclosed hi
  have htrim := trimAt_of_beside h hbeside hinside fun entry hentry =>
    canReach_enclosed_entry hentry
  -- the exit is reached over the first of the parts
  obtain ⟨first, rest, rfl⟩ := List.exists_cons_of_length_pos (by omega : 0 < parts.length)
  obtain ⟨hsound, hfirst⟩ := h first List.mem_cons_self
  obtain ⟨hhosts, others, after, rfl, _, _, _⟩ := hosts_of_beside_cons hsound hbeside hinside
  have hexit : CanReach (enclosed (1 :: others) states) 0 (states.size + 1) :=
    (canReach_enclosed_entry List.mem_cons_self).trans
      (hhosts.canReach_exit hfirst List.mem_cons_self)
  rw [hwhole]
  exact trim_enclosed (List.cons_ne_nil _ _) hexit htrim

/-- A part that may be passed by, between a new entry and a new exit. -/
theorem trim_of_hosts_enclosed {part block : Array State} {exits : List Nat}
    (hsize : block.size = part.size) (hpart : Trim part)
    (hhosts : Hosts (enclosed [1, part.size + 1] block) 1 part exits) (hne : exits ≠ []) :
    Trim (enclosed [1, part.size + 1] block) := by
  have hentry : CanReach (enclosed [1, part.size + 1] block) 0 1 :=
    canReach_enclosed_entry List.mem_cons_self
  refine trim_enclosed (List.cons_ne_nil _ _) ?_ fun i hi => ?_
  · rw [hsize]
    exact canReach_enclosed_entry (List.mem_cons_of_mem _ List.mem_cons_self)
  · exact (hhosts.carries hne).trimAt hpart hentry (hsize ▸ hi)

theorem trim_plus {part whole : Automaton} (h : Sound part.states) (hpart : Trim part.states)
    (hrun : part.plus = .ok whole) : Trim whole.states := by
  obtain ⟨block, hsize, hwhole, hhosts⟩ := hosts_of_plus h hrun
  have hlast : whole.states[part.size]? = some .halt := by
    rw [hwhole, ← hsize, Array.getElem?_push_size]
  have hexit : CanReach whole.states 0 part.size :=
    hhosts.canReach_exit hpart (List.mem_cons_of_mem _ List.mem_cons_self)
  intro q hq
  rw [hwhole, Array.size_push, hsize] at hq
  by_cases hend : q = part.size
  · rw [hend]
    exact trimAt_of_isFinal hlast rfl hexit
  · have hlt : q < part.size := by omega
    have hinside := (hhosts.carries (List.cons_ne_nil _ _)).trimAt hpart .refl hlt
    rwa [Nat.zero_add] at hinside

theorem trim_quantify {quantifier : Quantifier} {part whole : Automaton} (h : Sound part.states)
    (hpart : Trim part.states) (hrun : quantify quantifier part = .ok whole) :
    Trim whole.states := by
  cases quantifier with
  | star =>
    obtain ⟨block, hsize, hwhole, hhosts⟩ := hosts_of_star h hrun
    rw [hwhole] at hhosts ⊢
    exact trim_of_hosts_enclosed hsize hpart hhosts (List.cons_ne_nil _ _)
  | plus => exact trim_plus h hpart hrun
  | optional =>
    obtain ⟨block, hsize, hwhole, hhosts⟩ := hosts_of_optional h hrun
    rw [hwhole] at hhosts ⊢
    exact trim_of_hosts_enclosed hsize hpart hhosts (List.cons_ne_nil _ _)

/-- The operations on automata keep tables trim. -/
theorem kept_trim : Kept Trim where
  leaf := Rule.trim_build
  trivial := trim_trivial
  followedBy hsound hstates _ hpart hrun := trim_followedBy hsound hstates hpart hrun
  union := trim_union
  quantify := trim_quantify

end Automaton

/-! ## The automaton of a grammar -/

namespace Grammar

open Automaton (CanReach)

theorem trim_automaton (grammar : Grammar) : Automaton.Trim grammar.automaton.states :=
  of_kept Automaton.kept_trim grammar

theorem sound_automaton (grammar : Grammar) : Automaton.Sound grammar.automaton.states := by
  obtain ⟨a, hbuild, hsound⟩ := grammar.exists_build
  rw [build_eq_ok_automaton] at hbuild
  cases hbuild
  exact hsound

/-- A state that goes on for free is not the one in which runs end. -/
theorem ne_accept_of_free {grammar : Grammar} {q : Nat} {next : List Nat}
    (h : grammar.automaton.state? q = some (.free next)) : q ≠ grammar.automaton.accept := by
  rintro rfl
  obtain ⟨last, hback, hfinal⟩ := grammar.sound_automaton.final
  have hlast : grammar.automaton.state? grammar.automaton.accept = some last :=
    Automaton.back?_eq_some_getElem hback
  rw [h] at hlast
  cases hlast
  cases hfinal

/-- **The automaton of a grammar is trim.**  Every state is reached from the start, and from every
state the accepting one is reached, over free transitions and consuming ones.  A state that consumes
has exactly one transition; it leads to a state that does not accept and that goes on for free.  And
a state that goes on for free has a state to go on to. -/
theorem automaton_is_trim (grammar : Grammar) :
    (∀ q < grammar.automaton.size,
      CanReach grammar.automaton.states grammar.automaton.start q ∧
        CanReach grammar.automaton.states q grammar.automaton.accept) ∧
    (∀ q transitions, grammar.automaton.state? q = some (.consume transitions) →
      ∃ label target next, transitions.toList = [(label, target)] ∧
        target ≠ grammar.automaton.accept ∧
        grammar.automaton.state? target = some (.free next)) ∧
    ∀ q next, grammar.automaton.state? q = some (.free next) → next ≠ [] := by
  have htrim := grammar.trim_automaton
  refine ⟨fun q hq => ⟨(htrim q hq).reached, ?_⟩, fun q transitions hstate => ?_,
    fun q next hstate => ?_⟩
  · obtain ⟨w, hw⟩ := grammar.coaccessible_automaton q hq
    exact hw.canReach
  · have hq := Automaton.lt_size_of_state?_eq_some hstate
    obtain ⟨label, target, next, rfl, hfree⟩ := (htrim q hq).single hstate
    exact ⟨label, target, next, rfl, ne_accept_of_free hfree, hfree⟩
  · have hq := Automaton.lt_size_of_state?_eq_some hstate
    exact (htrim q hq).onward hstate

/-- The word `up`, or nothing at all. -/
def upOrNothing : Grammar := .alternatives [[], [.keyword "up"]]

/-- The branch without elements is a single state, and it is reached and left like the other. -/
theorem automaton_is_trim_upOrNothing :
    upOrNothing.automaton.state? 1 = some (.free [5]) ∧
      CanReach upOrNothing.automaton.states 0 1 ∧ CanReach upOrNothing.automaton.states 1 5 ∧
      upOrNothing.automaton.state? 2 = some (.consume (.single (.word "up") 3)) ∧
      upOrNothing.automaton.accept ≠ 3 ∧
      ∃ next, upOrNothing.automaton.state? 3 = some (.free next) ∧ next ≠ [] := by
  obtain ⟨hreach, hconsume, hfree⟩ := automaton_is_trim upOrNothing
  have hempty : upOrNothing.automaton.state? 1 = some (.free [5]) := by decide +kernel
  have hword : upOrNothing.automaton.state? 2 = some (.consume (.single (.word "up") 3)) := by
    decide +kernel
  have haccept : upOrNothing.automaton.accept = 5 := by decide +kernel
  obtain ⟨hentered, hleft⟩ := hreach 1 (Automaton.lt_size_of_state?_eq_some hempty)
  rw [haccept] at hleft
  obtain ⟨label, target, next, htransitions, hne, hnext⟩ := hconsume 2 _ hword
  obtain ⟨-, rfl⟩ := Prod.mk.inj (List.singleton_inj.mp htransitions)
  exact ⟨hempty, hentered, hleft, hword, hne.symm, next, hnext, hfree 3 next hnext⟩

end Grammar

end CommandGrammar
