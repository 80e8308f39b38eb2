import CommandGrammar.Automaton.Builder

/-!
# Exits

An automaton that is to be part of a larger one has to be left at its exit, and a state that
consumes cannot be left for free.  If the exits that an operation goes on from do not consume
(`Linkable`), the operation succeeds, and its result ends in a state of its own: this is
`exists_followedBy_of_linkable`, `exists_star_of_linkable` and so on.

The parts that are put together here end in a final state: one that halts, or that emits a rule and
has no way on yet (`State.isFinal`).  From parts that end so every operation succeeds, and what it
builds ends so again:

* `exists_concat`, `exists_union`, `exists_quantify` and `exists_emitting` say this of the
  operations;
* `Sound` is what they keep: no transition leaves the table, and its last state is final.
-/

namespace CommandGrammar

namespace State

/-- Whether a state has no way on and consumes nothing. -/
def isFinal : State → Bool
  | .halt => true
  | .emit _ [] => true
  | _ => false

/-- Whether a free transition can leave a state. -/
def isLinkable : State → Bool
  | .consume _ => false
  | _ => true

theorem isLinkable_of_isFinal {state : State} (h : state.isFinal) : state.isLinkable := by
  cases state <;> simp_all [isFinal, isLinkable]

theorem within_iff {size : Nat} {state : State} :
    state.within size ↔ ∀ target ∈ state.successors, target < size := by
  simp [within]

theorem within_mono {m n : Nat} {state : State} (le : m ≤ n) (h : state.within m) :
    state.within n :=
  within_iff.mpr fun target mem => Nat.lt_of_lt_of_le (within_iff.mp h target mem) le

theorem successors_shift (offset : Nat) (state : State) :
    (state.shift offset).successors = state.successors.map (· + offset) := by
  cases state <;> simp [shift, successors, Transitions.targets, Transitions.shift]

theorem within_shift {size offset : Nat} {state : State} (h : state.within size) :
    (state.shift offset).within (size + offset) := by
  rw [within_iff, successors_shift]
  intro target mem
  obtain ⟨before, isSuccessor, rfl⟩ := List.mem_map.mp mem
  have := within_iff.mp h before isSuccessor
  omega

theorem isFinal_shift (offset : Nat) (state : State) :
    (state.shift offset).isFinal = state.isFinal := by
  cases state with
  | emit rule next => cases next <;> simp [shift, isFinal]
  | _ => simp [shift, isFinal]

theorem isLinkable_shift (offset : Nat) (state : State) :
    (state.shift offset).isLinkable = state.isLinkable := by
  cases state <;> simp [shift, isLinkable]

/-- A state that can be linked gets one more successor and can be linked again. -/
theorem exists_link {state : State} (h : state.isLinkable) (target : Nat) :
    ∃ linked, state.link target = .ok linked ∧ linked.isLinkable ∧
      linked.successors = state.successors ++ [target] := by
  cases state <;> simp_all [isLinkable, link, successors]

end State

namespace Automaton

/-! ## Tables that can be continued -/

/-- Every state of a table stays below `size`. -/
def ClosedBelow (size : Nat) (states : Array State) : Prop := ∀ state ∈ states, state.within size

/-- The last state of a table can be linked. -/
def Linkable (states : Array State) : Prop := ∃ last, states.back? = some last ∧ last.isLinkable

/-- No transition leaves the table, and its last state is final. -/
structure Sound (states : Array State) : Prop where
  closed : ClosedBelow states.size states
  final : ∃ last, states.back? = some last ∧ last.isFinal

theorem Sound.linkable {states : Array State} (h : Sound states) : Linkable states :=
  let ⟨last, back, final⟩ := h.final
  ⟨last, back, State.isLinkable_of_isFinal final⟩

theorem Sound.size_pos {states : Array State} (h : Sound states) : 0 < states.size := by
  obtain ⟨last, back, _⟩ := h.final
  obtain ⟨before, rfl⟩ := Array.back?_eq_some_iff.mp back
  simp

theorem ofStates_eq_ok {states : Array State} (nonempty : 0 < states.size)
    (closed : ClosedBelow states.size states) :
    ofStates states = .ok ⟨states, nonempty, closed⟩ := by
  have none : states.findIdx? (!State.within states.size ·) = .none := by
    simpa [Array.findIdx?_eq_none_iff] using fun state mem => closed state mem
  unfold ofStates
  rw [dif_pos nonempty]
  split
  · next some => simp [none] at some
  · rfl

/-- An automaton that ends in a final state is sound. -/
theorem sound_of_back? {a : Automaton} {last : State} (back : a.states.back? = some last)
    (final : last.isFinal) : Sound a.states :=
  ⟨a.closed, last, back, final⟩

/-- A sound table is an automaton. -/
theorem Sound.exists_ofStates {states : Array State} (h : Sound states) :
    ∃ a, ofStates states = .ok a ∧ Sound a.states :=
  ⟨⟨states, h.size_pos, h.closed⟩, ofStates_eq_ok h.size_pos h.closed, h⟩

theorem ClosedBelow.mono {m n : Nat} {states : Array State} (le : m ≤ n)
    (h : ClosedBelow m states) : ClosedBelow n states :=
  fun state mem => State.within_mono le (h state mem)

theorem ClosedBelow.append {n : Nat} {first second : Array State} (h₁ : ClosedBelow n first)
    (h₂ : ClosedBelow n second) : ClosedBelow n (first ++ second) :=
  fun state mem => (Array.mem_append.mp mem).elim (h₁ state) (h₂ state)

theorem ClosedBelow.push {n : Nat} {states : Array State} {state : State}
    (h : ClosedBelow n states) (within : state.within n) : ClosedBelow n (states.push state) :=
  fun other mem => (Array.mem_push.mp mem).elim (h other) fun same => same ▸ within

theorem closedBelow_shifted (offset : Nat) (part : Automaton) :
    ClosedBelow (part.size + offset) (part.shifted offset) := by
  intro state mem
  obtain ⟨before, isState, rfl⟩ := Array.mem_map.mp mem
  exact State.within_shift (part.closed before isState)

@[simp] theorem size_shifted (offset : Nat) (part : Automaton) :
    (part.shifted offset).size = part.size := by
  simp [shifted, size]

theorem final_shifted {part : Automaton} (h : Sound part.states) (offset : Nat) :
    ∃ last, (part.shifted offset).back? = some last ∧ last.isFinal := by
  obtain ⟨last, back, final⟩ := h.final
  exact ⟨last.shift offset, by simp [shifted, Array.back?_map, back],
    by rw [State.isFinal_shift]; exact final⟩

theorem linkable_shifted {part : Automaton} (h : Linkable part.states) (offset : Nat) :
    Linkable (part.shifted offset) := by
  obtain ⟨last, back, linkable⟩ := h
  exact ⟨last.shift offset, by simp [shifted, Array.back?_map, back],
    by rw [State.isLinkable_shift]; exact linkable⟩

/-- Linking the last state of a table succeeds if that state can be linked; it can be linked again
afterwards, and the table is as large and as closed as before. -/
theorem exists_linkLast {states : Array State} (h : Linkable states) (target : Nat) :
    ∃ linked, linkLast states target = .ok linked ∧ Linkable linked ∧
      linked.size = states.size ∧
      ∀ n, ClosedBelow n states → target < n → ClosedBelow n linked := by
  obtain ⟨last, back, linkable⟩ := h
  obtain ⟨before, rfl⟩ := Array.back?_eq_some_iff.mp back
  obtain ⟨linked, link, again, successors⟩ := State.exists_link linkable target
  refine ⟨before.push linked, ?_, ⟨linked, by simp, again⟩, by simp, ?_⟩
  · simp [linkLast, link, bind, Except.bind, pure, Except.pure]
  · intro n closed below
    refine ClosedBelow.push (fun state mem => closed state (Array.mem_push.mpr (.inl mem))) ?_
    rw [State.within_iff, successors]
    intro x mem
    rcases List.mem_append.mp mem with mem | mem
    · exact State.within_iff.mp (closed last (Array.mem_push.mpr (.inr rfl))) x mem
    · exact List.mem_singleton.mp mem ▸ below

/-! ## The operations -/

theorem sound_trivial : Sound trivial.states :=
  ⟨trivial.closed, .halt, rfl, rfl⟩

theorem sound_consuming (label : Label) : Sound (consuming label).states :=
  ⟨(consuming label).closed, .halt, rfl, rfl⟩

/-- A table that can be left at its exit goes on to any part, and then ends as the part does. -/
theorem exists_followedBy_of_linkable {states : Array State}
    (closed : ClosedBelow states.size states) (h : Linkable states) (part : Automaton) :
    ∃ whole, followedBy states part = .ok whole ∧ whole.size = states.size + part.size ∧
      ClosedBelow whole.size whole ∧ whole.back? = (part.shifted states.size).back? := by
  obtain ⟨linked, link, _, size, keeps⟩ := exists_linkLast h states.size
  have positive : 0 < part.size := part.nonempty
  have all : (linked ++ part.shifted states.size).size = states.size + part.size := by
    simp [size]
  refine ⟨linked ++ part.shifted states.size, ?_, all, ?_, ?_⟩
  · simp [followedBy, link, bind, Except.bind, pure, Except.pure]
  · rw [all]
    refine ClosedBelow.append (keeps _ (closed.mono (Nat.le_add_right ..)) ?_)
      ((closedBelow_shifted _ _).mono ?_) <;> omega
  · have last : part.size - 1 < (part.shifted states.size).size := by
      rw [size_shifted]
      omega
    rw [Array.back?_append, Array.back?_eq_getElem?, size_shifted, Array.getElem?_eq_getElem last]
    rfl

theorem exists_followedBy {states : Array State} {part : Automaton} (h : Sound states)
    (hpart : Sound part.states) :
    ∃ whole, followedBy states part = .ok whole ∧ Sound whole := by
  obtain ⟨whole, run, _, closed, back⟩ := exists_followedBy_of_linkable h.closed h.linkable part
  obtain ⟨last, partBack, final⟩ := final_shifted hpart states.size
  exact ⟨whole, run, closed, last, back.trans partBack, final⟩

theorem exists_foldlM_followedBy {parts : List Automaton} {states : Array State}
    (h : Sound states) (hparts : ∀ part ∈ parts, Sound part.states) :
    ∃ whole, parts.foldlM followedBy states = .ok whole ∧ Sound whole := by
  induction parts generalizing states with
  | nil => exact ⟨states, rfl, h⟩
  | cons part rest ih =>
    obtain ⟨next, step, sound⟩ := exists_followedBy h (hparts part List.mem_cons_self)
    obtain ⟨whole, run, sound⟩ := ih sound fun p mem => hparts p (List.mem_cons_of_mem _ mem)
    exact ⟨whole, by simp [List.foldlM_cons, step, run, bind, Except.bind], sound⟩

theorem exists_concat {parts : List Automaton} (h : ∀ part ∈ parts, Sound part.states) :
    ∃ a, concat parts = .ok a ∧ Sound a.states := by
  cases parts with
  | nil => exact ⟨trivial, rfl, sound_trivial⟩
  | cons first rest =>
    obtain ⟨states, run, sound⟩ := exists_foldlM_followedBy (h first List.mem_cons_self)
      fun p mem => h p (List.mem_cons_of_mem _ mem)
    obtain ⟨a, make, sound⟩ := sound.exists_ofStates
    exact ⟨a, by simp [concat, run, make, bind, Except.bind], sound⟩

/-- Parts that stand side by side fill the table from `offset` on. -/
theorem exists_beside {parts : List Automaton} (h : ∀ part ∈ parts, Linkable part.states)
    {exit : Nat} (offset : Nat) (fits : offset + totalSize parts ≤ exit) :
    ∃ entries states, beside exit offset parts = .ok (entries, states) ∧
      states.size = totalSize parts ∧ (∀ entry ∈ entries, entry < exit) ∧
      ClosedBelow (exit + 1) states := by
  induction parts generalizing offset with
  | nil => exact ⟨[], #[], rfl, rfl, by simp, fun state mem => by simp at mem⟩
  | cons part rest ih =>
    rw [totalSize] at fits
    have positive : 0 < part.size := part.nonempty
    obtain ⟨linked, link, _, linkedSize, closed⟩ :=
      exists_linkLast (linkable_shifted (h part List.mem_cons_self) offset) exit
    obtain ⟨entries, others, run, othersSize, below, othersClosed⟩ :=
      ih (fun p mem => h p (List.mem_cons_of_mem _ mem)) (offset + part.size) (by omega)
    refine ⟨offset :: entries, linked ++ others, ?_, ?_, ?_, ?_⟩
    · simp [beside, link, run, bind, Except.bind, pure, Except.pure]
    · simp [linkedSize, othersSize, totalSize]
    · intro entry mem
      rcases List.mem_cons.mp mem with rfl | mem
      · omega
      · exact below entry mem
    · refine ClosedBelow.append (closed _ ((closedBelow_shifted offset part).mono ?_) ?_)
        othersClosed <;> omega

theorem size_enclosed {entries : List Nat} {states : Array State} :
    (enclosed entries states).size = states.size + 2 := by
  simp only [enclosed, Array.size_push, Array.size_append, List.size_toArray, List.length_cons,
    List.length_nil]
  omega

/-- A table between a new entry and a new exit is sound if neither its states nor the ways from the
entry lead past the exit. -/
theorem sound_enclosed {entries : List Nat} {states : Array State}
    (below : ∀ entry ∈ entries, entry < states.size + 2)
    (closed : ClosedBelow (states.size + 2) states) : Sound (enclosed entries states) := by
  refine ⟨?_, .halt, by simp [enclosed], rfl⟩
  rw [size_enclosed]
  refine ClosedBelow.push (ClosedBelow.append ?_ closed) (by simp [State.within_iff, State.successors])
  intro state mem
  obtain rfl : state = .free entries := by simpa using mem
  exact State.within_iff.mpr below

/-- At least two parts that can be left at their exits stand side by side. -/
theorem exists_union_of_linkable {parts : List Automaton}
    (h : ∀ part ∈ parts, Linkable part.states) (several : 2 ≤ parts.length) :
    ∃ a, union parts = .ok a ∧ a.size = totalSize parts + 2 ∧ a.states.back? = some .halt := by
  obtain ⟨entries, states, run, size, below, closed⟩ :=
    exists_beside h 1 (Nat.le_refl (1 + totalSize parts))
  have sound : Sound (enclosed entries states) := by
    refine sound_enclosed (fun entry mem => ?_) (closed.mono ?_)
    · have := below entry mem
      omega
    · omega
  refine ⟨⟨_, sound.size_pos, sound.closed⟩, ?_, ?_, by simp [enclosed]⟩
  · match parts, several with
    | first :: second :: rest, _ =>
      simp only [union, run, bind, Except.bind]
      exact ofStates_eq_ok sound.size_pos sound.closed
  · rw [Automaton.size, size_enclosed, size]

theorem exists_union {parts : List Automaton} (h : ∀ part ∈ parts, Sound part.states) :
    ∃ a, union parts = .ok a ∧ Sound a.states := by
  match parts with
  | [] => exact ⟨trivial, rfl, sound_trivial⟩
  | [part] => exact ⟨part, rfl, h part List.mem_cons_self⟩
  | first :: second :: rest =>
    obtain ⟨a, run, _, back⟩ :=
      exists_union_of_linkable (fun part mem => (h part mem).linkable) (by simp)
    exact ⟨a, run, sound_of_back? back rfl⟩

theorem exists_star_of_linkable {part : Automaton} (h : Linkable part.states) :
    ∃ a, part.star = .ok a ∧ a.size = part.size + 2 ∧ a.states.back? = some .halt := by
  have positive : 0 < part.size := part.nonempty
  obtain ⟨back, link₁, again, size₁, closed₁⟩ := exists_linkLast (linkable_shifted h 1) 1
  obtain ⟨states, link₂, _, size₂, closed₂⟩ := exists_linkLast again (part.size + 1)
  have size : states.size = part.size := by simp [size₂, size₁]
  have sound : Sound (enclosed [1, part.size + 1] states) := by
    refine sound_enclosed (by simp; omega) ?_
    rw [size]
    refine closed₂ _ (closed₁ _ ((closedBelow_shifted 1 part).mono ?_) ?_) ?_ <;> omega
  refine ⟨⟨_, sound.size_pos, sound.closed⟩, ?_, ?_, by simp [enclosed]⟩
  · simp only [star, link₁, link₂, bind, Except.bind]
    exact ofStates_eq_ok sound.size_pos sound.closed
  · rw [Automaton.size, size_enclosed, size]

theorem exists_optional_of_linkable {part : Automaton} (h : Linkable part.states) :
    ∃ a, part.optional = .ok a ∧ a.size = part.size + 2 ∧ a.states.back? = some .halt := by
  obtain ⟨states, link, _, size, closed⟩ := exists_linkLast (linkable_shifted h 1) (part.size + 1)
  have size : states.size = part.size := by simp [size]
  have sound : Sound (enclosed [1, part.size + 1] states) := by
    refine sound_enclosed (by simp; omega) ?_
    rw [size]
    refine closed _ ((closedBelow_shifted 1 part).mono ?_) ?_ <;> omega
  refine ⟨⟨_, sound.size_pos, sound.closed⟩, ?_, ?_, by simp [enclosed]⟩
  · simp only [optional, link, bind, Except.bind]
    exact ofStates_eq_ok sound.size_pos sound.closed
  · rw [Automaton.size, size_enclosed, size]

/-- A table with one more state, which is final, is sound if no transition leads past it. -/
theorem sound_push {states : Array State} {last : State}
    (closed : ClosedBelow (states.size + 1) states) (final : last.isFinal) :
    Sound (states.push last) := by
  refine ⟨?_, last, by simp, final⟩
  rw [Array.size_push]
  refine closed.push ?_
  cases last with
  | halt => simp [State.within_iff, State.successors]
  | consume transitions => cases final
  | free next => cases final
  | emit rule next => cases next <;> simp_all [State.isFinal, State.within_iff, State.successors]

theorem exists_plus_of_linkable {part : Automaton} (h : Linkable part.states) :
    ∃ a, part.plus = .ok a ∧ a.size = part.size + 1 ∧ a.states.back? = some .halt := by
  have positive : 0 < part.size := part.nonempty
  obtain ⟨back, link₁, again, size₁, closed₁⟩ := exists_linkLast h 0
  obtain ⟨states, link₂, _, size₂, closed₂⟩ := exists_linkLast again part.size
  have size : states.size = part.size := size₂.trans size₁
  have sound : Sound (states.push .halt) := by
    refine sound_push ?_ rfl
    rw [size]
    refine closed₂ _ (closed₁ _ (ClosedBelow.mono (Nat.le_succ _) part.closed) ?_) ?_ <;> omega
  refine ⟨⟨_, sound.size_pos, sound.closed⟩, ?_, ?_, by simp⟩
  · simp only [plus, link₁, link₂, bind, Except.bind]
    exact ofStates_eq_ok sound.size_pos sound.closed
  · rw [Automaton.size, Array.size_push, size]

/-- A part runs as often as a quantifier says if it can be left at its exit. -/
theorem exists_quantify_of_linkable (quantifier : Quantifier) {part : Automaton}
    (h : Linkable part.states) :
    ∃ a, quantify quantifier part = .ok a ∧ part.size < a.size ∧
      a.states.back? = some .halt := by
  cases quantifier with
  | star =>
    obtain ⟨a, run, size, back⟩ := exists_star_of_linkable h
    exact ⟨a, run, by omega, back⟩
  | plus =>
    obtain ⟨a, run, size, back⟩ := exists_plus_of_linkable h
    exact ⟨a, run, by omega, back⟩
  | optional =>
    obtain ⟨a, run, size, back⟩ := exists_optional_of_linkable h
    exact ⟨a, run, by omega, back⟩

theorem exists_plus {part : Automaton} (h : Sound part.states) :
    ∃ a, part.plus = .ok a ∧ Sound a.states := by
  obtain ⟨a, run, _, back⟩ := exists_plus_of_linkable h.linkable
  exact ⟨a, run, sound_of_back? back rfl⟩

theorem exists_quantify (quantifier : Quantifier) {part : Automaton} (h : Sound part.states) :
    ∃ a, quantify quantifier part = .ok a ∧ Sound a.states := by
  obtain ⟨a, run, _, back⟩ := exists_quantify_of_linkable quantifier h.linkable
  exact ⟨a, run, sound_of_back? back rfl⟩

/-- A part that can be left at its exit goes on to report a rule. -/
theorem exists_emitting_of_linkable {part : Automaton} (h : Linkable part.states) (rule : Rule) :
    ∃ a, part.emitting rule = .ok a ∧ a.size = part.size + 1 ∧
      a.states.back? = some (.emit rule []) := by
  have positive : 0 < part.size := part.nonempty
  obtain ⟨states, link, _, size, closed⟩ := exists_linkLast h part.size
  have size : states.size = part.size := size
  have sound : Sound (states.push (.emit rule [])) := by
    refine sound_push ?_ rfl
    rw [size]
    refine closed _ (ClosedBelow.mono (Nat.le_succ _) part.closed) ?_
    omega
  refine ⟨⟨_, sound.size_pos, sound.closed⟩, ?_, ?_, by simp⟩
  · simp only [emitting, link, bind, Except.bind]
    exact ofStates_eq_ok sound.size_pos sound.closed
  · rw [Automaton.size, Array.size_push, size]

theorem exists_emitting {part : Automaton} (h : Sound part.states) (rule : Rule) :
    ∃ a, part.emitting rule = .ok a ∧ Sound a.states := by
  obtain ⟨a, run, _, back⟩ := exists_emitting_of_linkable h.linkable rule
  exact ⟨a, run, sound_of_back? back rfl⟩

end Automaton

end CommandGrammar
