import CommandGrammar.Automaton.Label
import CommandGrammar.Grammar.Basic

/-!
# Automata

An automaton is a table of states.  It starts in the first state and accepts in the last one.  A
state of the table does one of four things: it halts, it consumes a token over one of its labelled
transitions, it goes on for free, or it emits a rule, meaning that the tokens read since the last
rule are claimed by this one, and then goes on for free.

Two things hold of every automaton and are part of the type: the table is not empty, and every
transition leads to a state of the table.  `Automaton.ofStates` checks both of a raw table and names
the first offence it finds.
-/

namespace CommandGrammar

/-! ## Labelled transitions -/

/-- The consuming transitions of a state: one target per label, in the order of the labels. -/
@[ext] structure Transitions where
  toList : List (Label × Nat)
  ascending : (toList.map Prod.fst).Pairwise fun a b => compare a b = .lt

namespace Transitions

instance : DecidableEq Transitions := fun s t =>
  decidable_of_iff (s.toList = t.toList) Transitions.ext_iff.symm

/-- No transitions. -/
def empty : Transitions := ⟨[], List.Pairwise.nil⟩

/-- A single transition. -/
def single (label : Label) (target : Nat) : Transitions :=
  ⟨[(label, target)], List.pairwise_singleton ..⟩

/-- Puts a transition in its place, instead of the one with the same label if there is one. -/
def place (label : Label) (target : Nat) : List (Label × Nat) → List (Label × Nat)
  | [] => [(label, target)]
  | first :: rest =>
    match compare label first.1 with
    | .lt => (label, target) :: first :: rest
    | .eq => (label, target) :: rest
    | .gt => first :: place label target rest

theorem mem_labels_place {label x : Label} {target : Nat} {l : List (Label × Nat)} :
    x ∈ (place label target l).map Prod.fst ↔ x = label ∨ x ∈ l.map Prod.fst := by
  induction l with
  | nil => simp [place]
  | cons first rest ih =>
    unfold place
    split
    · simp
    · next h =>
      have : label = first.1 := Std.LawfulEqCmp.eq_of_compare h
      subst this
      simp
    · rw [List.map_cons, List.mem_cons, ih, List.map_cons, List.mem_cons, or_left_comm]

theorem ascending_place {label : Label} {target : Nat} {l : List (Label × Nat)}
    (h : (l.map Prod.fst).Pairwise fun a b => compare a b = .lt) :
    ((place label target l).map Prod.fst).Pairwise fun a b => compare a b = .lt := by
  induction l with
  | nil => simp [place]
  | cons first rest ih =>
    obtain ⟨hfirst, hrest⟩ := List.pairwise_cons.mp h
    unfold place
    split
    · next hlt =>
      refine List.pairwise_cons.mpr ⟨fun x mem => ?_, h⟩
      rcases List.mem_cons.mp mem with rfl | mem
      · exact hlt
      · exact Std.TransCmp.lt_trans hlt (hfirst x mem)
    · next heq =>
      have : label = first.1 := Std.LawfulEqCmp.eq_of_compare heq
      subst this
      exact h
    · next hgt =>
      refine List.pairwise_cons.mpr ⟨fun x mem => ?_, ih hrest⟩
      rcases mem_labels_place.mp mem with rfl | mem
      · exact Std.OrientedCmp.lt_of_gt hgt
      · exact hfirst x mem

/-- Adds a transition; a label that is there already gets the new target. -/
def insert (transitions : Transitions) (label : Label) (target : Nat) : Transitions :=
  ⟨place label target transitions.toList, ascending_place transitions.ascending⟩

/-- The transitions of a list in any order; of two with one label the later one counts. -/
def ofList (l : List (Label × Nat)) : Transitions :=
  l.foldl (fun transitions t => transitions.insert t.1 t.2) empty

/-- The transitions with every target moved up. -/
def shift (offset : Nat) (transitions : Transitions) : Transitions where
  toList := transitions.toList.map fun t => (t.1, t.2 + offset)
  ascending := by
    simpa [List.map_map, Function.comp_def] using transitions.ascending

/-- The labels in their order. -/
def labels (transitions : Transitions) : List Label := transitions.toList.map Prod.fst

/-- The targets in the order of their labels. -/
def targets (transitions : Transitions) : List Nat := transitions.toList.map Prod.snd

end Transitions

/-! ## States -/

/-- A state of an automaton. -/
inductive State where
  /-- No way on. -/
  | halt
  /-- A token is consumed over one of the transitions. -/
  | consume (transitions : Transitions)
  /-- The automaton goes on for free to any of the states. -/
  | free (next : List Nat)
  /-- The rule is complete, and the automaton goes on for free. -/
  | emit (rule : Rule) (next : List Nat)
  deriving DecidableEq

namespace State

/-- The states to which a state leads. -/
def successors : State → List Nat
  | .halt => []
  | .consume transitions => transitions.targets
  | .free next => next
  | .emit _ next => next

/-- The state with every successor moved up, as it stands after `offset` other states. -/
def shift (offset : Nat) : State → State
  | .halt => .halt
  | .consume transitions => .consume (transitions.shift offset)
  | .free next => .free (next.map (· + offset))
  | .emit rule next => .emit rule (next.map (· + offset))

/-- Whether every successor is below `size`. -/
def within (size : Nat) (state : State) : Bool := state.successors.all (· < size)

end State

/-! ## Tables -/

/-- How a table of states, or an operation on tables, can be at fault. -/
inductive TableFault where
  /-- A free transition was to leave a state that consumes. -/
  | freeFromConsuming
  | noStates
  /-- The state `id` leads out of a table of `size` states. -/
  | successorOutside (id size : Nat)
  deriving DecidableEq, Repr

/-- What a caller is told about a fault. -/
def TableFault.message : TableFault → String
  | .freeFromConsuming => "cannot add epsilon transition to a consuming state"
  | .noStates => "automaton has no states"
  | .successorOutside id size =>
    "state " ++ toString id ++ " has a successor outside 0.." ++ toString size

/-- A table of states that is not empty and that no transition leaves. -/
@[ext] structure Automaton where
  states : Array State
  nonempty : 0 < states.size
  closed : ∀ state ∈ states, state.within states.size

namespace Automaton

/-- The number of states. -/
def size (a : Automaton) : Nat := a.states.size

/-- The state in which every run starts. -/
def start (_ : Automaton) : Nat := 0

/-- The state in which a run has to end: the last one. -/
def accept (a : Automaton) : Nat := a.size - 1

/-- The state with a number, if the table has one. -/
def state? (a : Automaton) (id : Nat) : Option State := a.states[id]?

/-- Takes a raw table for an automaton, or says what is wrong with it. -/
def ofStates (states : Array State) : Except TableFault Automaton :=
  if nonempty : 0 < states.size then
    match outside : states.findIdx? (!State.within states.size ·) with
    | some id => .error (.successorOutside id states.size)
    | none =>
      .ok ⟨states, nonempty, by simpa [Array.findIdx?_eq_none_iff] using outside⟩
  else .error .noStates

theorem accept_lt_size (a : Automaton) : a.accept < a.size := by
  have := a.nonempty
  unfold accept size
  omega

theorem lt_size_of_state?_eq_some {a : Automaton} {id : Nat} {state : State}
    (h : a.state? id = some state) : id < a.size :=
  (Array.getElem?_eq_some_iff.mp h).1

theorem successor_lt_size {a : Automaton} {id target : Nat} {state : State}
    (h : a.state? id = some state) (mem : target ∈ state.successors) : target < a.size := by
  have within := a.closed state (Array.mem_of_getElem? h)
  exact of_decide_eq_true (List.all_eq_true.mp within target mem)

theorem states_of_ofStates_eq_ok {states : Array State} {a : Automaton}
    (h : ofStates states = .ok a) : a.states = states := by
  unfold ofStates at h
  split at h
  · split at h
    · simp at h
    · simp only [Except.ok.injEq] at h
      rw [← h]
  · simp at h

end Automaton

end CommandGrammar
