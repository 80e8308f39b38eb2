import CommandGrammar.Automaton.Basic
import CommandGrammar.Search

/-!
# Steps

A step takes an automaton across one symbol.  It begins with any number of free transitions, which
may pass through states that emit a rule, and ends with the transition that consumes the symbol.
The accepting state consumes the end mark, and stays where it is, if there is no way on from it.

`Automaton.steps` finds all steps from a state by searching the free transitions.  What the search
visits is a state together with the emit states left on the way to it (`Visit`), because two ways
that emit different rules are different even where they meet.

## Free cycles through an emit state

Marking visits does not bound the search by itself: around a free cycle that leaves an emit state the
emit states left on the way grow with every turn, so no visit comes twice on the way around, and a
plain loop, which knows nothing but the marks, need not end.  The search is guarded against this: a
way does not leave the same emit state twice (`Automaton.onward`).

On a table in which no free cycle leaves an emit state the guard never holds anything back.  There the
plain loop comes to an end and finds the same steps in the same order, and the automaton of a grammar
is such a table; `CommandGrammar.Proofs.Matching.Closure` shows both.  On any other table nothing is
claimed of the plain loop.  What is stated of every table (that interpreting agrees with accepting,
that the tokens of a line are conserved, that the limit is exact) speaks there of the guarded search
only.
-/

namespace CommandGrammar

/-- A state reached by free transitions, and the emit states left on the way, in order. -/
structure Visit where
  state : Nat
  emits : List Nat
  deriving DecidableEq, Hashable, Repr

/-- A way across one symbol: the emit states left on the way, in order, and the state reached. -/
structure Step where
  emits : List Nat
  target : Nat
  deriving DecidableEq, Repr

namespace Automaton

/-- The visits that follow a visit by one free transition, unless this leaves an emit state that was
left before. -/
def onward (a : Automaton) (visit : Visit) : List Visit :=
  match a.state? visit.state with
  | some (.free next) => next.map (⟨·, visit.emits⟩)
  | some (.emit _ next) =>
    if visit.state ∈ visit.emits then []
    else next.map (⟨·, visit.emits ++ [visit.state]⟩)
  | _ => []

/-- The steps that end from the state of a visit. -/
def taken (a : Automaton) (symbol : Symbol) (visit : Visit) : List Step :=
  match a.state? visit.state with
  | some (.consume transitions) =>
    (transitions.toList.filter (·.1.accepts symbol)).map fun t => ⟨visit.emits, t.2⟩
  | some .halt =>
    if visit.state = a.accept ∧ symbol = .finish then [⟨visit.emits, visit.state⟩] else []
  | some (.emit _ []) =>
    if visit.state = a.accept ∧ symbol = .finish then
      [⟨visit.emits ++ [visit.state], visit.state⟩]
    else []
  | _ => []

/-! ## The visits are finitely many -/

/-- The lists of at most `length` numbers below `bound`. -/
def listsBelow (bound : Nat) : (length : Nat) → List (List Nat)
  | 0 => [[]]
  | length + 1 =>
    [] :: (List.range bound).flatMap fun first => (listsBelow bound length).map (first :: ·)

theorem mem_listsBelow {bound length : Nat} {l : List Nat} (short : l.length ≤ length)
    (below : ∀ x ∈ l, x < bound) : l ∈ listsBelow bound length := by
  induction length generalizing l with
  | zero => simp_all [listsBelow]
  | succ length ih =>
    cases l with
    | nil => simp [listsBelow]
    | cons first rest =>
      have := ih (l := rest) (by simpa using short) fun x mem => below x (List.mem_cons_of_mem _ mem)
      simp [listsBelow, below first List.mem_cons_self, this]

/-- Numbers below a bound without repeats are no more than the bound. -/
theorem length_le_of_nodup {bound : Nat} {l : List Nat} (nodup : l.Nodup)
    (below : ∀ x ∈ l, x < bound) : l.length ≤ bound := by
  induction bound generalizing l with
  | zero =>
    cases l with
    | nil => simp
    | cons first _ => exact absurd (below first List.mem_cons_self) (Nat.not_lt_zero _)
  | succ bound ih =>
    have short := ih (l := l.erase bound) (nodup.erase bound) fun x mem => by
      have ne : x ≠ bound := fun h => (nodup.not_mem_erase (h ▸ mem))
      have := below x (List.mem_of_mem_erase mem)
      omega
    have := List.length_erase_le (a := bound) (l := l)
    have := List.le_length_erase (a := bound) (l := l)
    omega

/-- The visits of a search from `start`: the emit states left on the way are different states of the
table, and the state is `start` or a state of the table. -/
def Reaches (a : Automaton) (start : Nat) (visit : Visit) : Prop :=
  (visit.state = start ∨ visit.state < a.size) ∧
    visit.emits.Nodup ∧ ∀ id ∈ visit.emits, id < a.size

/-- A search for steps stays among finitely many visits. -/
def region (a : Automaton) (start : Nat) : Search.Region a.onward where
  holds := a.Reaches start
  closed := by
    intro visit ⟨_, nodup, below⟩ after mem
    unfold onward at mem
    split at mem
    · next next h =>
      obtain ⟨target, isNext, rfl⟩ := List.mem_map.mp mem
      exact ⟨.inr (successor_lt_size h isNext), nodup, below⟩
    · next rule next h =>
      split at mem
      · simp at mem
      · next new =>
        obtain ⟨target, isNext, rfl⟩ := List.mem_map.mp mem
        refine ⟨.inr (successor_lt_size h isNext), ?_, ?_⟩
        · simpa [List.nodup_append, nodup] using fun id mem (same : id = visit.state) =>
            new (same ▸ mem)
        · intro id mem
          rcases List.mem_append.mp mem with mem | mem
          · exact below id mem
          · exact List.mem_singleton.mp mem ▸ lt_size_of_state?_eq_some h
    · simp at mem
  finite := by
    refine ⟨(start :: List.range a.size).flatMap fun state =>
      (listsBelow a.size a.size).map fun emits => ⟨state, emits⟩, ?_⟩
    intro visit ⟨state, nodup, below⟩
    have emits := mem_listsBelow (length_le_of_nodup nodup below) below
    refine List.mem_flatMap.mpr ⟨visit.state, ?_, List.mem_map.mpr ⟨visit.emits, emits, rfl⟩⟩
    simpa using state

/-! ## The steps from a state -/

/-- The steps from a state across a symbol, in the order in which a search that tries the first of
several ways first comes to them. -/
def steps (a : Automaton) (state : Nat) (symbol : Symbol) : List Step :=
  Search.exploreFrom a.onward (a.taken symbol) (a.region state) ⟨state, []⟩
    ⟨.inl rfl, List.nodup_nil, by simp⟩

end Automaton

end CommandGrammar
