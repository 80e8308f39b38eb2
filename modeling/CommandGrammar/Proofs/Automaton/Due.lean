import CommandGrammar.Proofs.Automaton.Operations
import CommandGrammar.Proofs.Grammar.Building

/-!
# The rule that is due

Suppose that a run has read a token of a leaf.  Before it reads a token of another leaf, or ends, it
has to come to the emit state of this one, and to no other.  After that no rule is due until the
next token is read.  So it is in the automaton of a grammar; in other tables a free way may pass
several emit states, or the same one again and again.

`Due states q due` says what comes up first on a free way from `q`: an emit state, or a halt, and
then nothing is due.  In an `Orderly` table there is only one answer for each state, and at the
start and after an emit state the answer is that nothing is due.  These are statements about single
states and what they lead to, so they can be checked part by part: inside of a larger table a part
has the answers that it has by itself (`Embeds.exists_due`), as long as nothing is due where its
exit leads.  The operations on automata always lead to the beginning of a part or to a halt, and
this is why they keep tables orderly (`kept_orderly`).
-/

namespace CommandGrammar

namespace State

variable {state : State} {offset : Nat}

theorem shift_eq_halt_iff : state.shift offset = .halt ↔ state = .halt := by
  cases state <;> simp [shift]

theorem shift_eq_free_iff {next : List Nat} :
    state.shift offset = .free next ↔
      ∃ before, state = .free before ∧ before.map (· + offset) = next := by
  cases state <;> simp [shift]

theorem shift_eq_emit_iff {rule : Rule} {next : List Nat} :
    state.shift offset = .emit rule next ↔
      ∃ before, state = .emit rule before ∧ before.map (· + offset) = next := by
  cases state <;> simp [shift]

end State

namespace Automaton

/-- What comes up first on a free way from a state: an emit state, or a halt. -/
inductive Due (states : Array State) : Nat → Option Nat → Prop where
  | halt {q : Nat} : states[q]? = some .halt → Due states q none
  | emit {q : Nat} {rule : Rule} {next : List Nat} : states[q]? = some (.emit rule next) →
      Due states q (some q)
  | free {q r : Nat} {next : List Nat} {due : Option Nat} : states[q]? = some (.free next) →
      r ∈ next → Due states r due → Due states q due

/-- No free way from a state comes to an emit state before it comes to a halt. -/
def NothingDue (states : Array State) (q : Nat) : Prop := ∀ due, Due states q due → due = none

/-- At a state at most one thing is due, and if it emits a rule, nothing is due after it. -/
structure OrderlyAt (states : Array State) (q : Nat) : Prop where
  unique : ∀ {due other}, Due states q due → Due states q other → due = other
  after : ∀ {rule next r}, states[q]? = some (.emit rule next) → r ∈ next → NothingDue states r

/-- At the start and after every emit state nothing is due, and nowhere more than one thing. -/
structure Orderly (states : Array State) : Prop where
  start : NothingDue states 0
  everywhere : ∀ q < states.size, OrderlyAt states q

variable {states whole part : Array State} {offset q : Nat}

/-! ## Single states -/

theorem Due.lt_size {due : Option Nat} (h : Due states q due) : q < states.size := by
  cases h with
  | halt hstate => exact (Array.getElem?_eq_some_iff.mp hstate).1
  | emit hstate => exact (Array.getElem?_eq_some_iff.mp hstate).1
  | free hstate _ _ => exact (Array.getElem?_eq_some_iff.mp hstate).1

theorem Due.eq_none_of_halt {due : Option Nat} (h : Due states q due)
    (hstate : states[q]? = some .halt) : due = none := by
  cases h with
  | halt => rfl
  | emit hother => rw [hstate] at hother; cases hother
  | free hother => rw [hstate] at hother; cases hother

theorem due_of_free_iff {due : Option Nat} {next : List Nat}
    (hstate : states[q]? = some (.free next)) :
    Due states q due ↔ ∃ r ∈ next, Due states r due := by
  constructor
  · intro h
    cases h with
    | halt hother => rw [hstate] at hother; cases hother
    | emit hother => rw [hstate] at hother; cases hother
    | free hother hmem hdue =>
      rw [hstate] at hother
      cases hother
      exact ⟨_, hmem, hdue⟩
  · rintro ⟨r, hmem, hdue⟩
    exact .free hstate hmem hdue

theorem not_due_of_consume {due : Option Nat} {transitions : Transitions}
    (hstate : states[q]? = some (.consume transitions)) : ¬ Due states q due := by
  intro h
  cases h with
  | halt hother => rw [hstate] at hother; cases hother
  | emit hother => rw [hstate] at hother; cases hother
  | free hother => rw [hstate] at hother; cases hother

theorem orderlyAt_of_nothingDue (h : NothingDue states q)
    (hstate : ∀ rule next, states[q]? ≠ some (.emit rule next)) : OrderlyAt states q where
  unique hdue hother := (h _ hdue).trans (h _ hother).symm
  after hemit := absurd hemit (hstate _ _)

theorem nothingDue_of_halt (hstate : states[q]? = some .halt) : NothingDue states q :=
  fun _ hdue => hdue.eq_none_of_halt hstate

theorem nothingDue_of_free {next : List Nat} (hstate : states[q]? = some (.free next))
    (h : ∀ r ∈ next, NothingDue states r) : NothingDue states q := by
  intro due hdue
  obtain ⟨r, hmem, hdue⟩ := (due_of_free_iff hstate).mp hdue
  exact h r hmem due hdue

/-! ## Parts of a table -/

/-- A part stands in a table from `offset` on, except that a final state of it may lead to the
beginning of the part, or to where nothing is due. -/
def Embeds (whole : Array State) (offset : Nat) (part : Array State) : Prop :=
  ∀ i < part.size, whole[offset + i]? = part[i]?.map (State.shift offset) ∨
    ∃ last exits, part[i]? = some last ∧ last.isFinal = true ∧
      whole[offset + i]? = some (last.leadingTo exits) ∧
      ∀ x ∈ exits, x = offset ∨ NothingDue whole x

/-- A state of a block is a state of the part in its new place, or the linked exit. -/
theorem Hosts.inner_or_exit {exits : List Nat} (h : Hosts whole offset part exits) {i : Nat}
    (hi : i < part.size) : whole[offset + i]? = part[i]?.map (State.shift offset) ∨
      ∃ last, part[i]? = some last ∧ last.isFinal = true ∧
        whole[offset + i]? = some (last.leadingTo exits) := by
  by_cases hinner : i + 1 < part.size
  · exact .inl (h.inner i hinner)
  · obtain ⟨last, hback, hfinal, hexit⟩ := h.exit
    obtain rfl : i = part.size - 1 := by omega
    exact .inr ⟨last, back?_eq_some_getElem hback, hfinal, hexit⟩

theorem Hosts.embeds {exits : List Nat} (h : Hosts whole offset part exits)
    (hout : ∀ x ∈ exits, x = offset ∨ NothingDue whole x) : Embeds whole offset part := by
  intro i hi
  rcases h.inner_or_exit hi with hsame | ⟨last, hlast, hfinal, hexit⟩
  · exact .inl hsame
  · exact .inr ⟨last, exits, hlast, hfinal, hexit, hout⟩

namespace Embeds

/-- Inside of a table, what is due at a state of a part is what is due there in the part. -/
theorem exists_due (h : Embeds whole offset part) (hclosed : ClosedBelow part.size part)
    (hstart : NothingDue part 0) {i : Nat} (hi : i < part.size) {due : Option Nat}
    (hdue : Due whole (offset + i) due) :
    ∃ before, Due part i before ∧ due = before.map (offset + ·) := by
  generalize hq : offset + i = q at hdue
  induction hdue generalizing i with
  | halt hstate =>
    subst hq
    rcases h i hi with hsame | ⟨last, exits, _, hfinal, hexit, _⟩
    · rw [hsame] at hstate
      obtain ⟨state, hinside, hshift⟩ := Option.map_eq_some_iff.mp hstate
      obtain rfl := State.shift_eq_halt_iff.mp hshift
      exact ⟨none, .halt hinside, rfl⟩
    · rw [hexit] at hstate
      rcases State.isFinal_iff.mp hfinal with rfl | ⟨rule, rfl⟩
      · cases hstate
      · cases hstate
  | emit hstate =>
    subst hq
    rcases h i hi with hsame | ⟨last, exits, hlast, hfinal, hexit, _⟩
    · rw [hsame] at hstate
      obtain ⟨state, hinside, hshift⟩ := Option.map_eq_some_iff.mp hstate
      obtain ⟨before, rfl, _⟩ := State.shift_eq_emit_iff.mp hshift
      exact ⟨some i, .emit hinside, rfl⟩
    · rw [hexit] at hstate
      rcases State.isFinal_iff.mp hfinal with rfl | ⟨rule, rfl⟩
      · cases hstate
      · exact ⟨some i, .emit hlast, rfl⟩
  | @free q r next due hstate hmem hdue ih =>
    subst hq
    rcases h i hi with hsame | ⟨last, exits, hlast, hfinal, hexit, hout⟩
    · rw [hsame] at hstate
      obtain ⟨state, hinside, hshift⟩ := Option.map_eq_some_iff.mp hstate
      obtain ⟨before, rfl, rfl⟩ := State.shift_eq_free_iff.mp hshift
      obtain ⟨j, hj, rfl⟩ := List.mem_map.mp hmem
      obtain ⟨before, hbefore, rfl⟩ :=
        ih (hclosed.lt_of_moves hinside (.free hj)) (Nat.add_comm offset j)
      exact ⟨before, .free hinside hj hbefore, rfl⟩
    · rw [hexit] at hstate
      rcases State.isFinal_iff.mp hfinal with rfl | ⟨rule, rfl⟩
      · -- the part halts here, and in the table nothing is due where it goes on
        cases hstate
        refine ⟨none, .halt hlast, ?_⟩
        rcases hout r hmem with rfl | hnothing
        · obtain ⟨before, hbefore, rfl⟩ := ih (Nat.zero_lt_of_lt hi) (Nat.add_zero r)
          rw [hstart before hbefore]
        · exact hnothing due hdue
      · cases hstate

theorem nothingDue (h : Embeds whole offset part) (hclosed : ClosedBelow part.size part)
    (hstart : NothingDue part 0) {i : Nat} (hi : i < part.size) (hpart : NothingDue part i) :
    NothingDue whole (offset + i) := by
  intro due hdue
  obtain ⟨before, hbefore, rfl⟩ := h.exists_due hclosed hstart hi hdue
  rw [hpart before hbefore]
  rfl

/-- At the beginning of an orderly part nothing is due. -/
theorem nothingDue_entry (h : Embeds whole offset part) (hclosed : ClosedBelow part.size part)
    (hpart : Orderly part) (hpos : 0 < part.size) : NothingDue whole offset :=
  h.nothingDue hclosed hpart.start hpos hpart.start

/-- The states of an orderly part are orderly in the whole. -/
theorem orderlyAt (h : Embeds whole offset part) (hclosed : ClosedBelow part.size part)
    (hpart : Orderly part) {i : Nat} (hi : i < part.size) : OrderlyAt whole (offset + i) where
  unique hdue hother := by
    obtain ⟨before, hbefore, rfl⟩ := h.exists_due hclosed hpart.start hi hdue
    obtain ⟨another, hanother, rfl⟩ := h.exists_due hclosed hpart.start hi hother
    rw [(hpart.everywhere i hi).unique hbefore hanother]
  after := by
    intro rule next r hstate hmem
    rcases h i hi with hsame | ⟨last, exits, _, hfinal, hexit, hout⟩
    · rw [hsame] at hstate
      obtain ⟨state, hinside, hshift⟩ := Option.map_eq_some_iff.mp hstate
      obtain ⟨before, rfl, rfl⟩ := State.shift_eq_emit_iff.mp hshift
      obtain ⟨j, hj, rfl⟩ := List.mem_map.mp hmem
      have hjlt := hclosed.lt_of_moves hinside (.emit hj)
      rw [Nat.add_comm]
      exact h.nothingDue hclosed hpart.start hjlt ((hpart.everywhere i hi).after hinside hj)
    · rw [hexit] at hstate
      rcases State.isFinal_iff.mp hfinal with rfl | ⟨rule, rfl⟩
      · cases hstate
      · cases hstate
        rcases hout r hmem with rfl | hnothing
        · exact h.nothingDue_entry hclosed hpart (Nat.zero_lt_of_lt hi)
        · exact hnothing

end Embeds

/-! ## Leaves -/

theorem orderly_trivial : Orderly trivial.states := by
  have hstate : trivial.states[0]? = some .halt := rfl
  refine ⟨nothingDue_of_halt hstate, fun q hq => ?_⟩
  obtain rfl : q = 0 := Nat.lt_one_iff.mp hq
  exact orderlyAt_of_nothingDue (nothingDue_of_halt hstate) (by simp [hstate])

/-- A table that begins by consuming, does not halt, and emits in one place only, where it ends. -/
theorem orderly_of_one_emit {transitions : Transitions} {e : Nat}
    (hfirst : states[0]? = some (.consume transitions)) (hhalt : ∀ q : Nat, states[q]? ≠ some .halt)
    (hemit : ∀ (q : Nat) rule next, states[q]? = some (.emit rule next) → q = e ∧ next = []) :
    Orderly states := by
  have hdue : ∀ {q due}, Due states q due → due = some e := by
    intro q due h
    induction h with
    | halt hstate => exact absurd hstate (hhalt _)
    | emit hstate => rw [(hemit _ _ _ hstate).1]
    | free _ _ _ ih => exact ih
  refine ⟨fun due h => absurd h (not_due_of_consume hfirst), fun q hq => ⟨?_, ?_⟩⟩
  · exact fun h hother => (hdue h).trans (hdue hother).symm
  · intro rule next r hstate hmem
    rw [(hemit _ _ _ hstate).2] at hmem
    cases hmem

end Automaton

namespace Rule

/-- The table of a keyword. -/
theorem states_build_keyword {word : String} {a : Automaton}
    (h : (keyword word).build = .ok a) :
    a.states = #[.consume (.single (.word word) 1), .free [2], .emit (.keyword word) []] :=
  Automaton.states_of_ofStates_eq_ok h

/-- The table of a capture. -/
theorem states_build_capture {tags : List String} {a : Automaton}
    (h : (capture tags).build = .ok a) :
    a.states = #[.consume (.single .any 1), .free [0, 2], .free [3], .emit (.capture tags) []] := by
  obtain ⟨run, hplus, _⟩ := Automaton.exists_plus (Automaton.sound_consuming .any)
  have hrun : run.states = #[.consume (.single .any 1), .free [0, 2], .halt] :=
    Automaton.states_of_ofStates_eq_ok hplus
  rw [Rule.build, hplus] at h
  have h : run.emitting (.capture tags) = .ok a := h
  rw [Automaton.emitting, Automaton.size, hrun] at h
  exact Automaton.states_of_ofStates_eq_ok h

theorem orderly_build {rule : Rule} {a : Automaton} (h : rule.build = .ok a) :
    Automaton.Orderly a.states := by
  cases rule with
  | keyword word =>
    rw [states_build_keyword h]
    refine @Automaton.orderly_of_one_emit _ _ 2 rfl ?_ ?_
    · rintro (_ | _ | _ | q) <;> simp
    · rintro (_ | _ | _ | q) <;> simp
  | capture tags =>
    rw [states_build_capture h]
    refine @Automaton.orderly_of_one_emit _ _ 3 rfl ?_ ?_
    · rintro (_ | _ | _ | _ | q) <;> simp
    · rintro (_ | _ | _ | _ | q) <;> simp

end Rule

namespace Automaton

/-! ## Operations -/

theorem orderly_followedBy {states whole : Array State} {part : Automaton} (h : Sound states)
    (hstates : Orderly states) (hpart : Orderly part.states)
    (hrun : followedBy states part = .ok whole) : Orderly whole := by
  obtain ⟨hsize, hhosts, hsame⟩ := hosts_of_followedBy h hrun
  have hsecond : Embeds whole states.size part.states := fun i hi => .inl (hsame i hi)
  have hentry : NothingDue whole states.size :=
    hsecond.nothingDue_entry part.closed hpart part.nonempty
  have hfirst : Embeds whole 0 states := by
    refine hhosts.embeds fun x hx => .inr ?_
    rw [List.mem_singleton.mp hx]
    exact hentry
  refine ⟨hfirst.nothingDue_entry h.closed hstates h.size_pos, fun q hq => ?_⟩
  by_cases hbefore : q < states.size
  · have hinside := hfirst.orderlyAt h.closed hstates hbefore
    rwa [Nat.zero_add] at hinside
  · have hlt : q - states.size < part.size := by omega
    have hinside := hsecond.orderlyAt part.closed hpart hlt
    rwa [Nat.add_sub_cancel' (by omega)] at hinside

section

variable {entries : List Nat} {states : Array State}

theorem getElem?_enclosed_exit : (enclosed entries states)[states.size + 1]? = some .halt := by
  rw [enclosed, Array.getElem?_push, if_pos (by simp; omega)]

/-- A table between a new entry and a new exit is orderly if it is so inside, and if nothing is due
where it is entered. -/
theorem orderly_enclosed (hentries : ∀ entry ∈ entries, NothingDue (enclosed entries states) entry)
    (h : ∀ i < states.size, OrderlyAt (enclosed entries states) (1 + i)) :
    Orderly (enclosed entries states) := by
  have hstart : NothingDue (enclosed entries states) 0 :=
    nothingDue_of_free getElem?_zero_enclosed hentries
  refine ⟨hstart, fun q hq => ?_⟩
  rw [size_enclosed] at hq
  by_cases hfirst : q = 0
  · rw [hfirst]
    exact orderlyAt_of_nothingDue hstart (by simp [getElem?_zero_enclosed])
  · by_cases hlast : q = states.size + 1
    · rw [hlast]
      exact orderlyAt_of_nothingDue (nothingDue_of_halt getElem?_enclosed_exit)
        (by simp [getElem?_enclosed_exit])
    · have hinside := h (q - 1) (by omega)
      rwa [Nat.add_sub_cancel' (by omega)] at hinside

end

/-- Parts side by side are orderly inside of a table, if nothing is due where they lead. -/
theorem orderlyAt_of_beside {parts : List Automaton}
    (h : ∀ part ∈ parts, Sound part.states ∧ Orderly part.states)
    {whole states : Array State} {entries : List Nat} {exit offset : Nat}
    (hrun : beside exit offset parts = .ok (entries, states))
    (hwhole : ∀ i < states.size, whole[offset + i]? = states[i]?) (hexit : NothingDue whole exit) :
    (∀ entry ∈ entries, NothingDue whole entry) ∧
      ∀ i < states.size, OrderlyAt whole (offset + i) := by
  induction parts generalizing offset entries states with
  | nil =>
    cases hrun
    exact ⟨fun entry hentry => absurd hentry List.not_mem_nil,
      fun i hi => absurd hi (Nat.not_lt_zero i)⟩
  | cons part rest ih =>
    obtain ⟨hsound, hpart⟩ := h part List.mem_cons_self
    obtain ⟨hhosts, others, after, rfl, hbeside, hsize, hafter⟩ :=
      hosts_of_beside_cons hsound hrun hwhole
    have hembeds : Embeds whole offset part.states := by
      refine hhosts.embeds fun x hx => .inr ?_
      rw [List.mem_singleton.mp hx]
      exact hexit
    obtain ⟨hentries, hothers⟩ := ih (fun p hp => h p (List.mem_cons_of_mem _ hp)) hbeside hafter
    refine ⟨List.forall_mem_cons.mpr
      ⟨hembeds.nothingDue_entry part.closed hpart part.nonempty, hentries⟩, fun i hi => ?_⟩
    by_cases hfirst : i < part.size
    · exact hembeds.orderlyAt part.closed hpart hfirst
    · have hlater := hothers (i - part.size) (by omega)
      rwa [Nat.add_assoc, Nat.add_sub_cancel' (by omega)] at hlater

theorem orderly_union {parts : List Automaton} {whole : Automaton} (hlength : 2 ≤ parts.length)
    (h : ∀ part ∈ parts, Sound part.states ∧ Orderly part.states)
    (hrun : union parts = .ok whole) : Orderly whole.states := by
  obtain ⟨entries, states, hbeside, hwhole⟩ :=
    exists_beside_of_union (fun part hpart => (h part hpart).1) hlength hrun
  obtain ⟨hentries, hinside⟩ := orderlyAt_of_beside h hbeside
    (fun i hi => getElem?_succ_enclosed hi) (nothingDue_of_halt getElem?_enclosed_exit)
  rw [hwhole]
  exact orderly_enclosed hentries hinside

/-- A part that may be passed by, between a new entry and a new exit. -/
theorem orderly_of_hosts_enclosed {part block : Array State} {exits : List Nat}
    (hsize : block.size = part.size) (hclosed : ClosedBelow part.size part) (hpart : Orderly part)
    (hhosts : Hosts (enclosed [1, part.size + 1] block) 1 part exits)
    (hexits : ∀ x ∈ exits, x = 1 ∨ x = part.size + 1) :
    Orderly (enclosed [1, part.size + 1] block) := by
  have hexit : NothingDue (enclosed [1, part.size + 1] block) (part.size + 1) := by
    rw [← hsize]
    exact nothingDue_of_halt getElem?_enclosed_exit
  have hembeds : Embeds (enclosed [1, part.size + 1] block) 1 part :=
    hhosts.embeds fun x hx => (hexits x hx).imp_right fun heq => by rw [heq]; exact hexit
  apply orderly_enclosed
  · intro entry hentry
    rcases List.mem_cons.mp hentry with rfl | hentry
    · exact hembeds.nothingDue_entry hclosed hpart hhosts.size_pos
    · rw [List.mem_singleton.mp hentry]
      exact hexit
  · exact fun i hi => hembeds.orderlyAt hclosed hpart (hsize ▸ hi)

theorem orderly_plus {part whole : Automaton} (h : Sound part.states)
    (hpart : Orderly part.states) (hrun : part.plus = .ok whole) : Orderly whole.states := by
  obtain ⟨block, hsize, hwhole, hhosts⟩ := hosts_of_plus h hrun
  have hlast : whole.states[part.size]? = some .halt := by
    rw [hwhole, ← hsize, Array.getElem?_push_size]
  have hexit := nothingDue_of_halt hlast
  have hembeds : Embeds whole.states 0 part.states := by
    refine hhosts.embeds fun x hx => ?_
    rcases List.mem_cons.mp hx with rfl | hx
    · exact .inl rfl
    · rw [List.mem_singleton.mp hx]
      exact .inr hexit
  refine ⟨hembeds.nothingDue_entry part.closed hpart part.nonempty, fun q hq => ?_⟩
  rw [hwhole, Array.size_push, hsize] at hq
  by_cases hend : q = part.size
  · rw [hend]
    exact orderlyAt_of_nothingDue hexit (by simp [hlast])
  · have hlt : q < part.size := by omega
    have hinside := hembeds.orderlyAt part.closed hpart hlt
    rwa [Nat.zero_add] at hinside

theorem orderly_quantify {quantifier : Quantifier} {part whole : Automaton}
    (h : Sound part.states) (hpart : Orderly part.states)
    (hrun : quantify quantifier part = .ok whole) : Orderly whole.states := by
  cases quantifier with
  | star =>
    obtain ⟨block, hsize, hwhole, hhosts⟩ := hosts_of_star h hrun
    rw [hwhole] at hhosts ⊢
    exact orderly_of_hosts_enclosed hsize part.closed hpart hhosts (by simp [Automaton.size])
  | plus => exact orderly_plus h hpart hrun
  | optional =>
    obtain ⟨block, hsize, hwhole, hhosts⟩ := hosts_of_optional h hrun
    rw [hwhole] at hhosts ⊢
    exact orderly_of_hosts_enclosed hsize part.closed hpart hhosts (by simp [Automaton.size])

/-- The operations on automata keep tables orderly. -/
theorem kept_orderly : Kept Orderly where
  leaf := Rule.orderly_build
  trivial := orderly_trivial
  followedBy hsound hstates _ hpart hrun := orderly_followedBy hsound hstates hpart hrun
  union := orderly_union
  quantify := orderly_quantify

end Automaton

/-- The automaton of a grammar is orderly. -/
theorem Grammar.orderly_automaton (grammar : Grammar) :
    Automaton.Orderly grammar.automaton.states :=
  of_kept Automaton.kept_orderly grammar

end CommandGrammar
