import CommandGrammar.Automaton.Exit
import CommandGrammar.Proofs.Language

/-!
# Traces

What a run of an automaton does is to read tokens and to emit rules.  `completions states q` is the
language of all that a run can still do when it is in the state `q` of a table, up to the end in
the last state, and `traces states` is the language of the runs from the beginning.  A last state
that emits a rule emits it at the end.

Larger tables hold smaller ones as blocks.  Inside a block a run of the whole is a run of the part
with other numbers; the only difference is that the exit of the part, where its runs end, goes on
to the `exits` of the block.  This is `Hosts`, and everything about the operations on automata
follows from what it says about completions:

* `Hosts.completions_eq_mul`: with one way out, from inside a block a run completes the part and
  goes on from there.
* `Hosts.completions_eq_mul_kstar`: with a way back to the entry of the block beside the way out, it
  completes the part, runs through it any number of times more, and goes on.
* `completions_of_extends`: a block at the very end of a table is left alone.

The induction is on runs, and its hypothesis is a bound on completions from every state of the
block at once; `Hosts.completions_le` has it with the bound left open.
-/

namespace CommandGrammar

open scoped Computability

/-- What can be observed of a run. -/
inductive Action where
  | read (token : String)
  | emit (rule : Rule)
  deriving DecidableEq, Repr

/-! ## The moves of a state -/

namespace State

/-- A state leads to another one, and what is observed on the way. -/
inductive Moves : State → List Action → Nat → Prop where
  | free {next : List Nat} {target : Nat} : target ∈ next → Moves (.free next) [] target
  | emit {rule : Rule} {next : List Nat} {target : Nat} : target ∈ next →
      Moves (.emit rule next) [.emit rule] target
  | read {transitions : Transitions} {label : Label} {text : String} {target : Nat} :
      (label, target) ∈ transitions.toList → label.accepts (.token text) = true →
      Moves (.consume transitions) [.read text] target

/-- What is observed when a run ends in a state, or leaves it for free. -/
def closing : State → List Action
  | .emit rule _ => [.emit rule]
  | _ => []

/-- A final state with ways on. -/
def leadingTo (exits : List Nat) : State → State
  | .halt => .free exits
  | .emit rule _ => .emit rule exits
  | state => state

/-- A final state halts, or emits a rule and has no way on. -/
theorem isFinal_iff {state : State} :
    state.isFinal = true ↔ state = .halt ∨ ∃ rule, state = .emit rule [] := by
  cases state with
  | halt => simp [isFinal]
  | consume transitions => simp [isFinal]
  | free next => simp [isFinal]
  | emit rule next => cases next <;> simp [isFinal]

theorem not_moves_of_isFinal {state : State} (h : state.isFinal = true) {actions : List Action}
    {target : Nat} : ¬ state.Moves actions target := by
  intro hmove
  rcases isFinal_iff.mp h with rfl | ⟨rule, rfl⟩
  · cases hmove
  · cases hmove with
    | emit hmem => cases hmem

theorem Moves.mem_successors {state : State} {actions : List Action} {target : Nat}
    (h : state.Moves actions target) : target ∈ state.successors := by
  cases h with
  | free hmem => exact hmem
  | emit hmem => exact hmem
  | read hmem _ => exact List.mem_map.mpr ⟨_, hmem, rfl⟩

/-- Moving a state to another place moves its targets. -/
theorem moves_shift_iff {offset : Nat} {state : State} {actions : List Action} {target : Nat} :
    (state.shift offset).Moves actions target ↔
      ∃ before, target = offset + before ∧ state.Moves actions before := by
  constructor
  · intro h
    cases state with
    | halt => cases h
    | consume transitions =>
      cases h with
      | read hmem haccepts =>
        obtain ⟨⟨label, before⟩, hbefore, heq⟩ := List.mem_map.mp hmem
        obtain ⟨rfl, rfl⟩ := Prod.mk.inj heq
        exact ⟨before, Nat.add_comm .., .read hbefore haccepts⟩
    | free next =>
      cases h with
      | free hmem =>
        obtain ⟨before, hbefore, rfl⟩ := List.mem_map.mp hmem
        exact ⟨before, Nat.add_comm .., .free hbefore⟩
    | emit rule next =>
      cases h with
      | emit hmem =>
        obtain ⟨before, hbefore, rfl⟩ := List.mem_map.mp hmem
        exact ⟨before, Nat.add_comm .., .emit hbefore⟩
  · rintro ⟨before, rfl, h⟩
    rw [Nat.add_comm]
    cases h with
    | free hmem => exact .free (List.mem_map_of_mem hmem)
    | emit hmem => exact .emit (List.mem_map_of_mem hmem)
    | read hmem haccepts =>
      exact .read (List.mem_map.mpr ⟨_, hmem, rfl⟩) haccepts

theorem closing_shift (offset : Nat) (state : State) :
    (state.shift offset).closing = state.closing := by
  cases state <;> rfl

/-- A final state that has been given ways on does what it did at the end, and then takes one. -/
theorem moves_leadingTo_iff {exits : List Nat} {state : State} (hfinal : state.isFinal = true)
    {actions : List Action} {target : Nat} :
    (state.leadingTo exits).Moves actions target ↔ actions = state.closing ∧ target ∈ exits := by
  rcases isFinal_iff.mp hfinal with rfl | ⟨rule, rfl⟩
  · constructor
    · intro hmove
      cases hmove with
      | free hmem => exact ⟨rfl, hmem⟩
    · rintro ⟨rfl, hmem⟩
      exact .free hmem
  · constructor
    · intro hmove
      cases hmove with
      | emit hmem => exact ⟨rfl, hmem⟩
    · rintro ⟨rfl, hmem⟩
      exact .emit hmem

end State

namespace Automaton

/-! ## Completions -/

/-- A run that is in a state can be completed by doing what the actions say. -/
inductive Completes (states : Array State) : Nat → List Action → Prop where
  | exit {last : State} : states.back? = some last → last.isFinal = true →
      Completes states (states.size - 1) last.closing
  | move {q r : Nat} {state : State} {u w : List Action} : states[q]? = some state →
      state.Moves u r → Completes states r w → Completes states q (u ++ w)

/-- All that a run can still do from a state on. -/
def completions (states : Array State) (q : Nat) : Language Action := {w | Completes states q w}

/-- All that a run can do. -/
def traces (states : Array State) : Language Action := completions states 0

theorem mem_completions_iff {states : Array State} {q : Nat} {w : List Action} :
    w ∈ completions states q ↔ Completes states q w := Iff.rfl

theorem back?_eq_some_getElem {states : Array State} {last : State}
    (h : states.back? = some last) : states[states.size - 1]? = some last := by
  rw [← h, Array.back?_eq_getElem?]

theorem ClosedBelow.lt_of_moves {n : Nat} {states : Array State} (h : ClosedBelow n states)
    {q target : Nat} {state : State} {actions : List Action} (hstate : states[q]? = some state)
    (hmove : state.Moves actions target) : target < n :=
  State.within_iff.mp (h state (Array.mem_of_getElem? hstate)) target hmove.mem_successors

theorem Completes.lt_size {states : Array State} {q : Nat} {w : List Action}
    (h : Completes states q w) : q < states.size := by
  cases h with
  | exit hback _ => exact (Array.getElem?_eq_some_iff.mp (back?_eq_some_getElem hback)).1
  | move hstate _ _ => exact (Array.getElem?_eq_some_iff.mp hstate).1

/-- From a state that goes on for free a run is completed from one of the states that follow. -/
theorem completions_of_free {states : Array State} {q : Nat} {next : List Nat}
    (h : states[q]? = some (.free next)) :
    completions states q = (next.map (completions states)).sum := by
  ext w
  rw [mem_sum_iff, mem_completions_iff]
  constructor
  · intro hw
    cases hw with
    | exit hback hfinal =>
      rw [back?_eq_some_getElem hback] at h
      cases h
      cases hfinal
    | move hstate hmove hrest =>
      rw [h] at hstate
      cases hstate
      cases hmove with
      | free hmem => exact ⟨_, List.mem_map_of_mem hmem, hrest⟩
  · rintro ⟨_, hmem, hw⟩
    obtain ⟨r, hr, rfl⟩ := List.mem_map.mp hmem
    exact .move h (.free hr) hw

/-- At the end of a table there is nothing left to do but what its last state does. -/
theorem completions_of_back? {states : Array State} {last : State}
    (hback : states.back? = some last) (hfinal : last.isFinal = true) :
    completions states (states.size - 1) = {last.closing} := by
  ext w
  rw [mem_completions_iff]
  constructor
  · intro hw
    generalize hq : states.size - 1 = q at hw
    cases hw with
    | exit hback' _ =>
      rw [hback] at hback'
      cases hback'
      rfl
    | move hstate hmove _ =>
      rw [← hq, back?_eq_some_getElem hback] at hstate
      cases hstate
      exact absurd hmove (State.not_moves_of_isFinal hfinal)
  · rintro rfl
    exact .exit hback hfinal

/-! ## Blocks of a table -/

/-- A part stands in a table from `offset` on, and its exit leads to `exits`. -/
structure Hosts (whole : Array State) (offset : Nat) (part : Array State) (exits : List Nat) :
    Prop where
  inner : ∀ i, i + 1 < part.size → whole[offset + i]? = part[i]?.map (State.shift offset)
  exit : ∃ last, part.back? = some last ∧ last.isFinal = true ∧
    whole[offset + (part.size - 1)]? = some (last.leadingTo exits)

namespace Hosts

variable {whole part : Array State} {offset : Nat} {exits : List Nat}

theorem size_pos (h : Hosts whole offset part exits) : 0 < part.size := by
  obtain ⟨last, hback, _, _⟩ := h.exit
  have := (Array.getElem?_eq_some_iff.mp (back?_eq_some_getElem hback)).1
  omega

/-- What completes the part and what goes on from one of its exits together complete the whole. -/
theorem completes (h : Hosts whole offset part exits) {x i : Nat} (hx : x ∈ exits)
    {u v : List Action} (hu : Completes part i u) (hv : Completes whole x v) :
    Completes whole (offset + i) (u ++ v) := by
  obtain ⟨last, hback, hfinal, hexit⟩ := h.exit
  induction hu with
  | exit hback' hfinal' =>
    rw [hback] at hback'
    cases hback'
    exact .move hexit ((State.moves_leadingTo_iff hfinal).mpr ⟨rfl, hx⟩) hv
  | @move q r state u w hstate hmove _ ih =>
    have hlt := (Array.getElem?_eq_some_iff.mp hstate).1
    -- the exit of the part is final, so a run of the part moves on from other states only
    have hinner : q + 1 < part.size := by
      by_contra hge
      have hq : q = part.size - 1 := by omega
      rw [hq, back?_eq_some_getElem hback] at hstate
      cases hstate
      exact State.not_moves_of_isFinal hfinal hmove
    have hwhole : whole[offset + q]? = some (state.shift offset) := by
      rw [h.inner q hinner, hstate]
      rfl
    rw [List.append_assoc]
    exact .move hwhole (State.moves_shift_iff.mpr ⟨r, rfl, hmove⟩) ih

/-- From inside a block a run completes the part and goes on with a word of `K`, if what follows
the exits of the block are words of `K`.  An exit may be the entry of the block; then `K` has to
admit another run through the part before a word of it. -/
theorem completions_le (h : Hosts whole offset part exits) (hclosed : ClosedBelow part.size part)
    (houtside : offset + part.size < whole.size) {K : Language Action}
    (hback : offset ∈ exits → traces part * K ≤ K)
    (hout : ∀ x ∈ exits, x ≠ offset → completions whole x ≤ K) {i : Nat} (hi : i < part.size) :
    completions whole (offset + i) ≤ completions part i * K := by
  obtain ⟨last, hlast, hfinal, hexit⟩ := h.exit
  intro w hw
  generalize hq : offset + i = q at hw
  induction hw generalizing i with
  | exit _ _ => omega
  | @move q r state u w hstate hmove hrest ih =>
    subst hq
    by_cases hinner : i + 1 < part.size
    · rw [h.inner i hinner] at hstate
      obtain ⟨before, hbefore, rfl⟩ := Option.map_eq_some_iff.mp hstate
      obtain ⟨j, rfl, hmove'⟩ := State.moves_shift_iff.mp hmove
      obtain ⟨v, hv, k, hk, rfl⟩ := ih (hclosed.lt_of_moves hbefore hmove') rfl
      exact ⟨u ++ v, .move hbefore hmove' hv, k, hk, List.append_assoc ..⟩
    · have hi' : i = part.size - 1 := by omega
      subst hi'
      rw [hexit] at hstate
      cases hstate
      obtain ⟨rfl, hr⟩ := (State.moves_leadingTo_iff hfinal).mp hmove
      refine ⟨last.closing, .exit hlast hfinal, w, ?_, rfl⟩
      by_cases hentry : r = offset
      · subst hentry
        exact hback hr (ih h.size_pos rfl)
      · exact hout r hr hentry hrest

/-- With one way out, a run inside a block completes the part and goes on from there. -/
theorem completions_eq_mul {x : Nat} (h : Hosts whole offset part [x])
    (hclosed : ClosedBelow part.size part) (houtside : offset + part.size < whole.size)
    (hx : x ≠ offset) {i : Nat} (hi : i < part.size) :
    completions whole (offset + i) = completions part i * completions whole x := by
  apply le_antisymm
  · apply h.completions_le hclosed houtside _ _ hi
    · intro hmem
      exact absurd (List.mem_singleton.mp hmem).symm hx
    · intro y hy _
      rw [List.mem_singleton.mp hy]
  · rintro _ ⟨u, hu, v, hv, rfl⟩
    exact h.completes List.mem_cons_self hu hv

/-- With a way back to the entry and a way out, a run inside a block completes the part, runs
through it any number of times more, and goes on from there. -/
theorem completions_eq_mul_kstar {x : Nat} (h : Hosts whole offset part [offset, x])
    (hclosed : ClosedBelow part.size part) (houtside : offset + part.size < whole.size)
    {i : Nat} (hi : i < part.size) :
    completions whole (offset + i) =
      completions part i * ((traces part)∗ * completions whole x) := by
  have hthrough : ∀ y ∈ [offset, x], ∀ j,
      completions part j * completions whole y ≤ completions whole (offset + j) := by
    rintro y hy j _ ⟨u, hu, v, hv, rfl⟩
    exact h.completes hy hu hv
  apply le_antisymm
  · apply h.completions_le hclosed houtside _ _ hi
    · intro _
      rw [← mul_assoc]
      exact mul_le_mul_left mul_kstar_le_kstar _
    · intro y hy hne
      have hyx : y = x := by simpa [hne] using hy
      rw [hyx]
      calc completions whole x = 1 * completions whole x := (one_mul _).symm
        _ ≤ (traces part)∗ * completions whole x := mul_le_mul_left one_le_kstar _
  · -- what follows the exit is closed under one more run through the part
    have hloop : (traces part)∗ * completions whole x ≤
        completions whole offset + completions whole x := by
      apply kstar_mul_le
      · exact le_add_self
      · rw [mul_add]
        apply add_le
        · exact (hthrough offset List.mem_cons_self 0).trans le_self_add
        · exact (hthrough x (List.mem_cons_of_mem _ List.mem_cons_self) 0).trans le_self_add
    calc completions part i * ((traces part)∗ * completions whole x)
        ≤ completions part i * (completions whole offset + completions whole x) :=
          mul_le_mul_right hloop _
      _ ≤ completions whole (offset + i) := by
          rw [mul_add]
          apply add_le
          · exact hthrough offset List.mem_cons_self i
          · exact hthrough x (List.mem_cons_of_mem _ List.mem_cons_self) i

end Hosts

/-- A part at the end of a table is left as it is: its exit is the exit of the whole. -/
theorem completions_of_extends {whole part : Array State} {offset : Nat}
    (hsize : whole.size = offset + part.size)
    (hsame : ∀ i < part.size, whole[offset + i]? = part[i]?.map (State.shift offset))
    (hclosed : ClosedBelow part.size part) {i : Nat} (hi : i < part.size) :
    completions whole (offset + i) = completions part i := by
  have hlast : whole.back? = part.back?.map (State.shift offset) := by
    rw [Array.back?_eq_getElem?, Array.back?_eq_getElem?, ← hsame (part.size - 1) (by omega)]
    congr 1
    omega
  ext w
  rw [mem_completions_iff, mem_completions_iff]
  constructor
  · intro hw
    generalize hq : offset + i = q at hw
    induction hw generalizing i with
    | exit hback hfinal =>
      rw [hlast] at hback
      obtain ⟨before, hbefore, rfl⟩ := Option.map_eq_some_iff.mp hback
      have hi' : i = part.size - 1 := by omega
      rw [State.isFinal_shift] at hfinal
      rw [State.closing_shift, hi']
      exact .exit hbefore hfinal
    | move hstate hmove _ ih =>
      subst hq
      rw [hsame i hi] at hstate
      obtain ⟨before, hbefore, rfl⟩ := Option.map_eq_some_iff.mp hstate
      obtain ⟨j, rfl, hmove'⟩ := State.moves_shift_iff.mp hmove
      exact .move hbefore hmove' (ih (hclosed.lt_of_moves hbefore hmove') rfl)
  · intro hw
    induction hw with
    | @exit last hback hfinal =>
      rw [hback] at hlast
      have hend : offset + (part.size - 1) = whole.size - 1 := by omega
      rw [hend, ← State.closing_shift offset]
      exact .exit hlast (by rw [State.isFinal_shift]; exact hfinal)
    | @move q r state u w hstate hmove hrest ih =>
      have hwhole : whole[offset + q]? = some (state.shift offset) := by
        rw [hsame q (Array.getElem?_eq_some_iff.mp hstate).1, hstate]
        rfl
      exact .move hwhole (State.moves_shift_iff.mpr ⟨r, rfl, hmove⟩) (ih hrest.lt_size)

end Automaton

end CommandGrammar
