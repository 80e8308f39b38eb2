import CommandGrammar.Grammar.Automaton
import CommandGrammar.Proofs.Automaton.Operations

/-!
# When the operations fail

An operation on automata goes on from the exits of some of its parts, and the only thing that can
stop it is an exit that consumes.  Every transition that it adds leads to a state of the table that
it builds, so the check of that table never finds anything.

What an operation does is said in one piece (`FailsIff`): the condition under which it fails, the
fault with which it does so, and what holds of its result otherwise.  Such statements compose along
a sequence of operations (`FailsIff.bind`), and this is how parts one after the other are treated:
the fold over the parts fails at the first of them that consumes and is not the last one
(`failsIff_foldlM_followedBy`).  For the other operations it is enough to look at the two cases
(`FailsIff.of_cases`); that they succeed in one of them is known from the theory of exits.
-/

namespace CommandGrammar

/-- A result is a fault exactly under a condition, and then that of a free transition from a state
that consumes; if it is a value, the value has a property. -/
structure FailsIff {α : Type} (result : Except TableFault α) (refused : Prop) (post : α → Prop) :
    Prop where
  error_iff : ∀ fault, result = .error fault ↔ fault = .freeFromConsuming ∧ refused
  of_ok : ∀ value, result = .ok value → post value

namespace FailsIff

variable {α β : Type} {result : Except TableFault α} {refused refusedLater : Prop}
  {post : α → Prop} {postLater : β → Prop}

theorem of_cases (hfault : refused → result = .error .freeFromConsuming)
    (hok : ¬ refused → ∃ value, result = .ok value ∧ post value) :
    FailsIff result refused post := by
  by_cases h : refused
  · rw [hfault h]
    refine ⟨fun fault => ?_, fun value hvalue => by cases hvalue⟩
    constructor
    · intro heq
      cases heq
      exact ⟨rfl, h⟩
    · rintro ⟨rfl, _⟩
      rfl
  · obtain ⟨value, hvalue, hpost⟩ := hok h
    rw [hvalue]
    refine ⟨fun fault => ?_, fun other hother => by cases hother; exact hpost⟩
    constructor
    · intro heq
      cases heq
    · exact fun hrefused => absurd hrefused.2 h

theorem of_eq_ok {value : α} (h : result = .ok value) (hpost : post value) (hnot : ¬ refused) :
    FailsIff result refused post :=
  of_cases (fun hrefused => absurd hrefused hnot) fun _ => ⟨value, h, hpost⟩

/-- What comes later fails only if what comes first does not. -/
theorem bind (h : FailsIff result refused post) {next : α → Except TableFault β}
    (hnext : ∀ value, post value → FailsIff (next value) refusedLater postLater) :
    FailsIff (result >>= next) (refused ∨ refusedLater) postLater := by
  cases result with
  | error fault =>
    obtain ⟨rfl, hrefused⟩ := (h.error_iff fault).mp rfl
    exact of_cases (fun _ => rfl) fun hnot => absurd (Or.inl hrefused) hnot
  | ok value =>
    have hlater := hnext value (h.of_ok value rfl)
    have hnot : ¬ refused := fun hrefused => by cases (h.error_iff _).mpr ⟨rfl, hrefused⟩
    refine ⟨fun fault => ?_, hlater.of_ok⟩
    rw [or_iff_right hnot]
    exact hlater.error_iff fault

theorem congr {other : Prop} (h : FailsIff result refused post) (hiff : other ↔ refused) :
    FailsIff result other post := by
  rw [hiff]
  exact h

end FailsIff

namespace Automaton

/-- The exit of an automaton consumes. -/
def ExitConsumes (a : Automaton) : Prop :=
  ∃ transitions, a.state? a.accept = some (.consume transitions)

/-- The last state of an automaton is the given one. -/
def EndsIn (a : Automaton) (last : State) : Prop := a.state? a.accept = some last

/-- A table has states, and no transition leaves it. -/
def WellFormed (states : Array State) : Prop :=
  0 < states.size ∧ ∀ state ∈ states, ∀ target ∈ state.successors, target < states.size

theorem wellFormed_states (a : Automaton) : WellFormed a.states :=
  ⟨a.nonempty, fun state hstate => State.within_iff.mp (a.closed state hstate)⟩

theorem endsIn_iff {a : Automaton} {last : State} :
    a.EndsIn last ↔ a.states.back? = some last := by
  rw [Array.back?_eq_getElem?]
  rfl

/-! ## Exits that consume -/

theorem not_linkable_iff {states : Array State} (hpos : 0 < states.size) :
    ¬ Linkable states ↔ ∃ transitions, states.back? = some (.consume transitions) := by
  have hback : states.back? = some states[states.size - 1] := by
    rw [Array.back?_eq_getElem?, Array.getElem?_eq_getElem (Nat.sub_lt hpos Nat.one_pos)]
  rw [Linkable, hback]
  cases states[states.size - 1] <;> simp [State.isLinkable]

theorem exitConsumes_iff {a : Automaton} : a.ExitConsumes ↔ ¬ Linkable a.states := by
  rw [not_linkable_iff a.nonempty, Array.back?_eq_getElem?]
  rfl

theorem linkable_of_not_exitConsumes {a : Automaton} (h : ¬ a.ExitConsumes) :
    Linkable a.states := by
  rwa [exitConsumes_iff, not_not] at h

/-- No free transition leaves a table whose last state consumes. -/
theorem linkLast_of_not_linkable {states : Array State} (hpos : 0 < states.size)
    (h : ¬ Linkable states) (target : Nat) :
    linkLast states target = .error .freeFromConsuming := by
  obtain ⟨transitions, hback⟩ := (not_linkable_iff hpos).mp h
  simp [linkLast, hback, State.link, bind, Except.bind]

theorem linkable_map_shift_iff {states : Array State} {offset : Nat} :
    Linkable (states.map (State.shift offset)) ↔ Linkable states := by
  rw [Linkable, Linkable, Array.back?_map]
  constructor
  · rintro ⟨_, hback, hlinkable⟩
    obtain ⟨last, hlast, rfl⟩ := Option.map_eq_some_iff.mp hback
    exact ⟨last, hlast, by rwa [State.isLinkable_shift] at hlinkable⟩
  · rintro ⟨last, hlast, hlinkable⟩
    exact ⟨last.shift offset, by rw [hlast]; rfl, by rwa [State.isLinkable_shift]⟩

theorem linkLast_shifted_of_exitConsumes {part : Automaton} (h : part.ExitConsumes)
    (offset target : Nat) : linkLast (part.shifted offset) target = .error .freeFromConsuming := by
  refine linkLast_of_not_linkable (by rw [size_shifted]; exact part.nonempty) ?_ target
  rw [shifted, linkable_map_shift_iff]
  exact exitConsumes_iff.mp h

/-! ## Parts one after the other -/

theorem failsIff_followedBy {states : Array State} (hpos : 0 < states.size)
    (hclosed : ClosedBelow states.size states) (part : Automaton) :
    FailsIff (followedBy states part) (¬ Linkable states) fun whole =>
      whole.size = states.size + part.size ∧ ClosedBelow whole.size whole ∧
        whole.back? = (part.shifted states.size).back? := by
  apply FailsIff.of_cases
  · intro hnot
    rw [followedBy, linkLast_of_not_linkable hpos hnot]
    rfl
  · exact fun hlinkable => exists_followedBy_of_linkable hclosed (not_not.mp hlinkable) part

/-- A table goes on to parts unless it consumes at its exit, or a part that is not the last one
does.  The whole ends as the last part does. -/
theorem failsIff_foldlM_followedBy {parts : List Automaton} {states : Array State}
    (hpos : 0 < states.size) (hclosed : ClosedBelow states.size states) :
    FailsIff (parts.foldlM followedBy states)
      ((parts ≠ [] ∧ ¬ Linkable states) ∨ ∃ part ∈ parts.dropLast, part.ExitConsumes) fun whole =>
        whole.size = states.size + totalSize parts ∧ ClosedBelow whole.size whole ∧
        (parts = [] → whole = states) ∧ ∀ last, parts.getLast? = some last →
          whole.back? = last.states.back?.map (State.shift (whole.size - last.size)) := by
  induction parts generalizing states with
  | nil =>
    refine .of_eq_ok rfl ⟨rfl, hclosed, fun _ => rfl, nofun⟩ ?_
    rintro (⟨hne, _⟩ | ⟨part, hpart, _⟩)
    · exact hne rfl
    · cases hpart
  | cons part rest ih =>
    have hrefused : ((part :: rest ≠ [] ∧ ¬ Linkable states) ∨
        ∃ p ∈ (part :: rest).dropLast, p.ExitConsumes) ↔ ¬ Linkable states ∨
          ((rest ≠ [] ∧ part.ExitConsumes) ∨ ∃ p ∈ rest.dropLast, p.ExitConsumes) := by
      cases rest with
      | nil => simp
      | cons second rest => simp
    rw [List.foldlM_cons]
    refine ((failsIff_followedBy hpos hclosed part).bind ?_).congr hrefused
    rintro next ⟨hsize, hclosedNext, hback⟩
    have hlinkable : ¬ Linkable next ↔ part.ExitConsumes := by
      rw [exitConsumes_iff, ← @linkable_map_shift_iff part.states states.size, Linkable, hback]
      rfl
    have hrest := @ih next (by omega) hclosedNext
    rw [hlinkable] at hrest
    refine ⟨hrest.error_iff, fun whole hwhole => ?_⟩
    obtain ⟨hall, hclosedWhole, hnil, hends⟩ := hrest.of_ok whole hwhole
    refine ⟨by rw [hall, hsize, totalSize, Nat.add_assoc], hclosedWhole, nofun, fun last hlast => ?_⟩
    cases rest with
    | nil =>
      obtain rfl : part = last := Option.some.inj hlast
      rw [hnil rfl, hback, hsize, Nat.add_sub_cancel, shifted, Array.back?_map]
    | cons second rest => exact hends last hlast

theorem failsIff_concat (parts : List Automaton) :
    FailsIff (concat parts) (∃ part ∈ parts.dropLast, part.ExitConsumes) fun whole =>
      (parts = [] → whole = trivial) ∧ ∀ last, parts.getLast? = some last →
        whole.size = totalSize parts ∧
        whole.states.back? = last.states.back?.map (State.shift (whole.size - last.size)) := by
  cases parts with
  | nil => exact .of_eq_ok rfl ⟨fun _ => rfl, nofun⟩ (by simp)
  | cons first rest =>
    have hrefused : (∃ part ∈ (first :: rest).dropLast, part.ExitConsumes) ↔
        ((rest ≠ [] ∧ ¬ Linkable first.states) ∨ ∃ part ∈ rest.dropLast, part.ExitConsumes) ∨
          False := by
      rw [← exitConsumes_iff]
      cases rest with
      | nil => simp
      | cons second rest => simp
    refine ((failsIff_foldlM_followedBy first.nonempty first.closed).bind ?_).congr hrefused
    rintro states ⟨hsize, hclosed, hnil, hends⟩
    have hfirst : 0 < first.states.size := first.nonempty
    refine .of_eq_ok (ofStates_eq_ok (by omega) hclosed) ⟨nofun, fun last hlast => ⟨hsize, ?_⟩⟩ id
    cases rest with
    | nil =>
      obtain rfl : first = last := Option.some.inj hlast
      have hsame : states = first.states := hnil rfl
      simp only [hsame, Automaton.size, Nat.sub_self, funext State.shift_zero, Option.map_id']
    | cons second rest => exact hends last hlast

/-! ## Parts side by side -/

theorem beside_of_exitConsumes {parts : List Automaton} (h : ∃ part ∈ parts, part.ExitConsumes)
    (exit offset : Nat) : beside exit offset parts = .error .freeFromConsuming := by
  induction parts generalizing offset with
  | nil =>
    obtain ⟨_, hpart, _⟩ := h
    cases hpart
  | cons part rest ih =>
    by_cases hfirst : part.ExitConsumes
    · rw [beside, linkLast_shifted_of_exitConsumes hfirst]
      rfl
    · have hrest : ∃ p ∈ rest, p.ExitConsumes := by simpa [hfirst] using h
      obtain ⟨linked, hlink, _⟩ :=
        exists_linkLast (linkable_shifted (linkable_of_not_exitConsumes hfirst) offset) exit
      rw [beside, hlink]
      show (beside exit (offset + part.size) rest >>= _) = _
      rw [ih hrest]
      rfl

theorem failsIff_union (parts : List Automaton) :
    FailsIff (union parts) (2 ≤ parts.length ∧ ∃ part ∈ parts, part.ExitConsumes) fun whole =>
      (parts = [] → whole = trivial) ∧ (∀ part, parts = [part] → whole = part) ∧
      (2 ≤ parts.length → whole.size = totalSize parts + 2 ∧ whole.EndsIn .halt) := by
  rcases parts with _ | ⟨first, _ | ⟨second, rest⟩⟩
  · exact .of_eq_ok rfl ⟨fun _ => rfl, by simp, by simp⟩ (by simp)
  · refine .of_eq_ok rfl ⟨by simp, fun other hother => ?_, by simp⟩ (by simp)
    exact (List.cons.inj hother).1
  · apply FailsIff.of_cases
    · rintro ⟨_, hconsumes⟩
      simp only [union, beside_of_exitConsumes hconsumes, bind, Except.bind]
    · intro hnot
      have hlinkable : ∀ part ∈ first :: second :: rest, Linkable part.states := by
        intro part hpart
        apply linkable_of_not_exitConsumes
        exact fun hconsumes => hnot ⟨by simp, part, hpart, hconsumes⟩
      obtain ⟨whole, hrun, hsize, hback⟩ := exists_union_of_linkable hlinkable (by simp)
      exact ⟨whole, hrun, by simp, by simp, fun _ => ⟨hsize, endsIn_iff.mpr hback⟩⟩

/-! ## One part -/

theorem failsIff_quantify (quantifier : Quantifier) (part : Automaton) :
    FailsIff (quantify quantifier part) part.ExitConsumes fun whole =>
      part.size < whole.size ∧ whole.EndsIn .halt := by
  apply FailsIff.of_cases
  · intro hconsumes
    have hshifted := linkLast_shifted_of_exitConsumes hconsumes 1
    have hlast := linkLast_of_not_linkable part.nonempty (exitConsumes_iff.mp hconsumes)
    cases quantifier with
    | star => simp only [quantify, star, hshifted, bind, Except.bind]
    | plus => simp only [quantify, plus, hlast, bind, Except.bind]
    | optional => simp only [quantify, optional, hshifted, bind, Except.bind]
  · intro hnot
    obtain ⟨whole, hrun, hsize, hback⟩ :=
      exists_quantify_of_linkable quantifier (linkable_of_not_exitConsumes hnot)
    exact ⟨whole, hrun, hsize, endsIn_iff.mpr hback⟩

theorem failsIff_emitting (part : Automaton) (rule : Rule) :
    FailsIff (part.emitting rule) part.ExitConsumes fun whole =>
      whole.size = part.size + 1 ∧ whole.EndsIn (.emit rule []) := by
  apply FailsIff.of_cases
  · intro hconsumes
    have hlast := linkLast_of_not_linkable part.nonempty (exitConsumes_iff.mp hconsumes)
    simp only [emitting, hlast, bind, Except.bind]
  · intro hnot
    obtain ⟨whole, hrun, hsize, hback⟩ :=
      exists_emitting_of_linkable (linkable_of_not_exitConsumes hnot) rule
    exact ⟨whole, hrun, hsize, endsIn_iff.mpr hback⟩

/-! ## All operations -/

theorem failsIff_and_wellFormed {result : Except TableFault Automaton} {refused : Prop}
    {post : Automaton → Prop} (h : FailsIff result refused post) :
    FailsIff result refused fun whole => WellFormed whole.states ∧ post whole :=
  ⟨h.error_iff, fun whole hwhole => ⟨wellFormed_states whole, h.of_ok whole hwhole⟩⟩

/-- **The operations fail at exits that consume, and for no other reason.**  A part that is
repeated, left out or made to report a rule must not end in a state that consumes; of parts one
after the other this holds of all but the last one, and of parts side by side of all of them, if
there are at least two.  The table that an operation builds is never at fault.  What is built is
well-formed and ends in its new exit.  So every grammar, whatever its shape, has an automaton, and
this ends in a state that halts or that emits a rule and has no way on. -/
theorem operations_fail_exactly :
    (∀ quantifier part, FailsIff (quantify quantifier part) part.ExitConsumes fun whole =>
      WellFormed whole.states ∧ part.size < whole.size ∧ whole.EndsIn .halt) ∧
    (∀ (part : Automaton) rule, FailsIff (part.emitting rule) part.ExitConsumes fun whole =>
      WellFormed whole.states ∧ whole.size = part.size + 1 ∧ whole.EndsIn (.emit rule [])) ∧
    (∀ parts, FailsIff (concat parts) (∃ part ∈ parts.dropLast, part.ExitConsumes) fun whole =>
      WellFormed whole.states ∧ (parts = [] → whole = trivial) ∧
      ∀ last, parts.getLast? = some last → whole.size = totalSize parts ∧
        whole.states.back? = last.states.back?.map (State.shift (whole.size - last.size))) ∧
    (∀ parts, FailsIff (union parts) (2 ≤ parts.length ∧ ∃ part ∈ parts, part.ExitConsumes)
      fun whole => WellFormed whole.states ∧ (parts = [] → whole = trivial) ∧
        (∀ part, parts = [part] → whole = part) ∧
        (2 ≤ parts.length → whole.size = totalSize parts + 2 ∧ whole.EndsIn .halt)) ∧
    (∀ grammar : Grammar, grammar.build = .ok grammar.automaton ∧
      (grammar.automaton.EndsIn .halt ∨ ∃ rule, grammar.automaton.EndsIn (.emit rule []))) := by
  refine ⟨fun quantifier part => failsIff_and_wellFormed (failsIff_quantify quantifier part),
    fun part rule => failsIff_and_wellFormed (failsIff_emitting part rule),
    fun parts => failsIff_and_wellFormed (failsIff_concat parts),
    fun parts => failsIff_and_wellFormed (failsIff_union parts),
    fun grammar => ⟨grammar.build_eq_ok_automaton, ?_⟩⟩
  obtain ⟨whole, hbuild, hsound⟩ := grammar.exists_build
  obtain rfl : grammar.automaton = whole :=
    Except.ok.inj (grammar.build_eq_ok_automaton.symm.trans hbuild)
  obtain ⟨last, hback, hfinal⟩ := hsound.final
  rcases State.isFinal_iff.mp hfinal with rfl | ⟨rule, rfl⟩
  · exact .inl (endsIn_iff.mpr hback)
  · exact .inr ⟨rule, endsIn_iff.mpr hback⟩

/-- An automaton of one state, which reads tokens for ever. -/
def endless : Automaton where
  states := #[.consume (.single .any 0)]
  nonempty := by decide
  closed := by decide

/-- An automaton that ends in a state that consumes can be the last of several parts, but it cannot
be followed or repeated. -/
theorem operations_fail_exactly_endless :
    endless.star = .error .freeFromConsuming ∧
    concat [endless, trivial] = .error .freeFromConsuming ∧
    ∃ whole, concat [trivial, endless] = .ok whole ∧ whole.size = 2 := by
  have hconsumes : endless.ExitConsumes := ⟨_, rfl⟩
  have hhalts : ¬ trivial.ExitConsumes := by
    rintro ⟨transitions, h⟩
    cases h
  obtain ⟨hquantify, _, hconcat, _⟩ := operations_fail_exactly
  refine ⟨((hquantify .star endless).error_iff _).mpr ⟨rfl, hconsumes⟩,
    ((hconcat [endless, trivial]).error_iff _).mpr ⟨rfl, endless, by simp, hconsumes⟩, ?_⟩
  cases hresult : concat [trivial, endless] with
  | error fault =>
    obtain ⟨_, part, hpart, h⟩ := ((hconcat [trivial, endless]).error_iff fault).mp hresult
    rw [List.mem_singleton.mp hpart] at h
    exact absurd h hhalts
  | ok whole => exact ⟨whole, rfl, (((hconcat _).of_ok whole hresult).2.2 endless rfl).1⟩

end Automaton

end CommandGrammar
