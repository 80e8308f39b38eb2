import CommandGrammar.Matching.Step
import CommandGrammar.Proofs.Automaton.Trace
import CommandGrammar.Proofs.Reachability

/-!
# Free paths and steps

A step goes along a free path, which leaves emit states behind, and then ends: over a transition
that consumes the symbol, or in the accepting state at the end of the line.  `FreePath` and `Ends`
say this without a search, and `mem_steps_iff` says that the search finds exactly these steps, as
long as no emit state is left twice.

Where only the state at the end of a step counts, the condition on emit states makes no difference,
because a detour from an emit state back to itself can be cut out (`FreePath.exists_nodup`).

The completions of a run are sequences of steps: `Completes.exists_ends` takes the first step off a
completion, and `FreePath.completes` puts it back.
-/

namespace CommandGrammar
namespace Automaton

/-- Free transitions lead from one state to another, and the emit states left on the way are
`emits`, in order. -/
inductive FreePath (a : Automaton) : Nat → List Nat → Nat → Prop where
  | refl (q : Nat) : FreePath a q [] q
  | free {q r s : Nat} {next emits : List Nat} : a.state? q = some (.free next) → r ∈ next →
      FreePath a r emits s → FreePath a q emits s
  | emit {q r s : Nat} {rule : Rule} {next emits : List Nat} :
      a.state? q = some (.emit rule next) → r ∈ next →
      FreePath a r emits s → FreePath a q (q :: emits) s

/-- A step across a symbol ends from a state, after leaving the emit states `extra` there. -/
inductive Ends (a : Automaton) : Symbol → Nat → List Nat → Nat → Prop where
  | consume {symbol : Symbol} {r s : Nat} {transitions : Transitions} {label : Label} :
      a.state? r = some (.consume transitions) → (label, s) ∈ transitions.toList →
      label.accepts symbol = true → Ends a symbol r [] s
  | halt : a.state? a.accept = some .halt → Ends a .finish a.accept [] a.accept
  | emit {rule : Rule} : a.state? a.accept = some (.emit rule []) →
      Ends a .finish a.accept [a.accept] a.accept

variable {a : Automaton}

/-! ## Free paths -/

namespace FreePath

theorem trans {q r s : Nat} {emits others : List Nat} (h₁ : FreePath a q emits r)
    (h₂ : FreePath a r others s) : FreePath a q (emits ++ others) s := by
  induction h₁ with
  | refl q => exact h₂
  | free hstate hmem _ ih => exact .free hstate hmem (ih h₂)
  | emit hstate hmem _ ih => exact .emit hstate hmem (ih h₂)

/-- A path leads to an emit state that is left on the way, and from there to its end. -/
theorem exists_split {q s e : Nat} {emits : List Nat} (h : FreePath a q emits s)
    (he : e ∈ emits) : ∃ before after, emits = before ++ e :: after ∧
      FreePath a q before e ∧ FreePath a e (e :: after) s := by
  induction h with
  | refl q => cases he
  | free hstate hmem _ ih =>
    obtain ⟨before, after, heq, hbefore, hafter⟩ := ih he
    exact ⟨before, after, heq, .free hstate hmem hbefore, hafter⟩
  | @emit q r s rule next emits hstate hmem hpath ih =>
    rcases List.mem_cons.mp he with rfl | he
    · exact ⟨[], emits, rfl, .refl e, .emit hstate hmem hpath⟩
    · obtain ⟨before, after, rfl, hbefore, hafter⟩ := ih he
      exact ⟨q :: before, after, rfl, .emit hstate hmem hbefore, hafter⟩

/-- Without its detours a free path leaves no emit state twice. -/
theorem exists_nodup {q s : Nat} {emits : List Nat} (h : FreePath a q emits s) :
    ∃ others, others.Nodup ∧ FreePath a q others s := by
  induction h with
  | refl q => exact ⟨[], List.nodup_nil, .refl q⟩
  | free hstate hmem _ ih =>
    obtain ⟨others, hnodup, hpath⟩ := ih
    exact ⟨others, hnodup, .free hstate hmem hpath⟩
  | @emit q r s rule next emits hstate hmem _ ih =>
    obtain ⟨others, hnodup, hpath⟩ := ih
    by_cases hq : q ∈ others
    · -- the path comes back to `q`, so it may as well start from the last time it does
      obtain ⟨before, after, rfl, _, hafter⟩ := hpath.exists_split hq
      exact ⟨q :: after, (List.nodup_append.mp hnodup).2.1, hafter⟩
    · exact ⟨q :: others, List.nodup_cons.mpr ⟨hq, hnodup⟩, .emit hstate hmem hpath⟩

end FreePath

/-! ## What the search visits -/

theorem mem_onward_free {visit after : Visit} {next : List Nat}
    (h : a.state? visit.state = some (.free next)) :
    after ∈ a.onward visit ↔ ∃ target ∈ next, after = ⟨target, visit.emits⟩ := by
  unfold onward
  rw [h]
  simp [eq_comm]

theorem mem_onward_emit {visit after : Visit} {rule : Rule} {next : List Nat}
    (h : a.state? visit.state = some (.emit rule next)) :
    after ∈ a.onward visit ↔ visit.state ∉ visit.emits ∧
      ∃ target ∈ next, after = ⟨target, visit.emits ++ [visit.state]⟩ := by
  unfold onward
  rw [h]
  by_cases hmem : visit.state ∈ visit.emits
  · simp [hmem]
  · simp [hmem, eq_comm]

/-- A free path that leaves no emit state twice, nor one that was left before, is followed by the
search. -/
theorem FreePath.leads {q s : Nat} {emits : List Nat} (h : FreePath a q emits s) {start : Visit}
    {before : List Nat} (hnodup : (before ++ emits).Nodup)
    (hstart : Search.Leads a.onward start ⟨q, before⟩) :
    Search.Leads a.onward start ⟨s, before ++ emits⟩ := by
  induction h generalizing before with
  | refl q =>
    rw [List.append_nil]
    exact hstart
  | free hstate hmem _ ih =>
    exact ih hnodup (.step hstart ((mem_onward_free hstate).mpr ⟨_, hmem, rfl⟩))
  | @emit q r s rule next emits hstate hmem _ ih =>
    have hnew : q ∉ before := by
      intro hq
      exact (List.nodup_append.mp hnodup).2.2 q hq q List.mem_cons_self rfl
    rw [List.append_cons] at hnodup ⊢
    exact ih hnodup (.step hstart ((mem_onward_emit hstate).mpr ⟨hnew, _, hmem, rfl⟩))

theorem nodup_append_singleton {q : Nat} {emits : List Nat} (h : emits.Nodup) (hq : q ∉ emits) :
    (emits ++ [q]).Nodup := by
  rw [← List.concat_eq_append]
  exact h.concat hq

/-- The search visits the ends of the free paths that leave no emit state twice. -/
theorem leads_onward_iff {q : Nat} {visit : Visit} :
    Search.Leads a.onward ⟨q, []⟩ visit ↔
      FreePath a q visit.emits visit.state ∧ visit.emits.Nodup := by
  constructor
  · intro h
    induction h with
    | refl => exact ⟨.refl q, List.nodup_nil⟩
    | @step visit after _ hmem ih =>
      obtain ⟨hpath, hnodup⟩ := ih
      cases hstate : a.state? visit.state with
      | none => simp [onward, hstate] at hmem
      | some state =>
        cases state with
        | halt => simp [onward, hstate] at hmem
        | consume transitions => simp [onward, hstate] at hmem
        | free next =>
          obtain ⟨target, htarget, rfl⟩ := (mem_onward_free hstate).mp hmem
          have hlast : FreePath a visit.state [] target := .free hstate htarget (.refl target)
          refine ⟨?_, hnodup⟩
          rw [← List.append_nil visit.emits]
          exact hpath.trans hlast
        | emit rule next =>
          obtain ⟨hnew, target, htarget, rfl⟩ := (mem_onward_emit hstate).mp hmem
          have hlast : FreePath a visit.state [visit.state] target :=
            .emit hstate htarget (.refl target)
          exact ⟨hpath.trans hlast, nodup_append_singleton hnodup hnew⟩
  · rintro ⟨hpath, hnodup⟩
    have hstart : Search.Leads a.onward ⟨q, []⟩ ⟨q, []⟩ := .refl
    rw [← List.nil_append visit.emits] at hnodup
    exact hpath.leads hnodup hstart

/-! ## Steps -/

/-- The steps that end from a state are those that `Ends` admits there. -/
theorem mem_taken_iff {symbol : Symbol} {r : Nat} {emits : List Nat} {step : Step} :
    step ∈ a.taken symbol ⟨r, emits⟩ ↔
      ∃ extra, a.Ends symbol r extra step.target ∧ step.emits = emits ++ extra := by
  obtain ⟨crossed, target⟩ := step
  constructor
  · intro h
    cases hstate : a.state? r with
    | none => simp [taken, hstate] at h
    | some state =>
      cases state with
      | halt =>
        simp only [taken, hstate] at h
        split at h
        · next hend =>
          obtain ⟨rfl, rfl⟩ := hend
          obtain ⟨rfl, rfl⟩ := Step.mk.inj (List.mem_singleton.mp h)
          exact ⟨[], .halt hstate, (List.append_nil _).symm⟩
        · cases h
      | consume transitions =>
        simp only [taken, hstate] at h
        obtain ⟨⟨label, s⟩, hmem, heq⟩ := List.mem_map.mp h
        obtain ⟨rfl, rfl⟩ := Step.mk.inj heq
        obtain ⟨hmem, haccepts⟩ := List.mem_filter.mp hmem
        exact ⟨[], .consume hstate hmem haccepts, (List.append_nil _).symm⟩
      | free next => simp [taken, hstate] at h
      | emit rule next =>
        cases next with
        | cons => simp [taken, hstate] at h
        | nil =>
          simp only [taken, hstate] at h
          split at h
          · next hend =>
            obtain ⟨rfl, rfl⟩ := hend
            obtain ⟨rfl, rfl⟩ := Step.mk.inj (List.mem_singleton.mp h)
            exact ⟨[a.accept], .emit hstate, rfl⟩
          · cases h
  · rintro ⟨extra, hends, rfl⟩
    cases hends with
    | consume hstate hmem haccepts =>
      simp only [taken, hstate, List.append_nil]
      exact List.mem_map.mpr ⟨_, List.mem_filter.mpr ⟨hmem, haccepts⟩, rfl⟩
    | halt hstate =>
      simp only [taken, hstate, List.append_nil, and_self, if_true]
      exact List.mem_singleton_self _
    | emit hstate =>
      simp only [taken, hstate, and_self, if_true]
      exact List.mem_singleton_self _

/-- The steps from a state go along a free path that leaves no emit state twice, and end. -/
theorem mem_steps_iff {q : Nat} {symbol : Symbol} {step : Step} :
    step ∈ a.steps q symbol ↔ ∃ r emits extra, FreePath a q emits r ∧ emits.Nodup ∧
      a.Ends symbol r extra step.target ∧ step.emits = emits ++ extra := by
  refine Search.mem_exploreFrom_iff.trans ?_
  constructor
  · rintro ⟨⟨r, emits⟩, hleads, hstep⟩
    obtain ⟨hpath, hnodup⟩ := leads_onward_iff.mp hleads
    obtain ⟨extra, hends, heq⟩ := mem_taken_iff.mp hstep
    exact ⟨r, emits, extra, hpath, hnodup, hends, heq⟩
  · rintro ⟨r, emits, extra, hpath, hnodup, hends, heq⟩
    exact ⟨⟨r, emits⟩, leads_onward_iff.mpr ⟨hpath, hnodup⟩, mem_taken_iff.mpr ⟨extra, hends, heq⟩⟩

/-- A state is the target of a step exactly when some free path leads to where the step ends. -/
theorem exists_mem_steps_iff {q s : Nat} {symbol : Symbol} :
    (∃ step ∈ a.steps q symbol, step.target = s) ↔
      ∃ r emits extra, FreePath a q emits r ∧ a.Ends symbol r extra s := by
  constructor
  · rintro ⟨step, hstep, rfl⟩
    obtain ⟨r, emits, extra, hpath, _, hends, _⟩ := mem_steps_iff.mp hstep
    exact ⟨r, emits, extra, hpath, hends⟩
  · rintro ⟨r, emits, extra, hpath, hends⟩
    obtain ⟨others, hnodup, hpath⟩ := hpath.exists_nodup
    exact ⟨⟨others ++ extra, s⟩, mem_steps_iff.mpr ⟨r, others, extra, hpath, hnodup, hends, rfl⟩, rfl⟩

/-- A line ends in the accepting state, and there is one way in which it ends there. -/
theorem Ends.finish_cases {r s : Nat} {extra : List Nat} (h : a.Ends .finish r extra s) :
    r = a.accept ∧ s = a.accept ∧
      (a.state? a.accept = some .halt ∧ extra = [] ∨
        ∃ rule, a.state? a.accept = some (.emit rule []) ∧ extra = [a.accept]) := by
  cases h with
  | consume _ _ haccepts =>
    rw [Label.accepts_finish] at haccepts
    cases haccepts
  | halt hstate => exact ⟨rfl, rfl, .inl ⟨hstate, rfl⟩⟩
  | emit hstate => exact ⟨rfl, rfl, .inr ⟨_, hstate, rfl⟩⟩

theorem target_of_mem_steps_finish {q : Nat} {step : Step} (h : step ∈ a.steps q .finish) :
    step.target = a.accept := by
  obtain ⟨_, _, _, _, _, hends, _⟩ := mem_steps_iff.mp h
  exact hends.finish_cases.2.1

/-! ## Steps and completions -/

/-- What is observed when the emit states are left. -/
def emitted (a : Automaton) (emits : List Nat) : List Action :=
  emits.filterMap fun id =>
    match a.state? id with
    | some (.emit rule _) => some (.emit rule)
    | _ => none

theorem emitted_append (emits others : List Nat) :
    a.emitted (emits ++ others) = a.emitted emits ++ a.emitted others :=
  List.filterMap_append ..

theorem emitted_cons {q : Nat} {rule : Rule} {next : List Nat}
    (h : a.state? q = some (.emit rule next)) (emits : List Nat) :
    a.emitted (q :: emits) = .emit rule :: a.emitted emits := by
  rw [emitted, List.filterMap_cons, h]
  rfl

theorem FreePath.length_emitted {q s : Nat} {emits : List Nat} (h : FreePath a q emits s) :
    (a.emitted emits).length = emits.length := by
  induction h with
  | refl q => rfl
  | free _ _ _ ih => exact ih
  | emit hstate _ _ ih => rw [emitted_cons hstate, List.length_cons, List.length_cons, ih]

/-- A run along a free path emits the rules of the states that it leaves. -/
theorem FreePath.completes {q s : Nat} {emits : List Nat} (h : FreePath a q emits s)
    {w : List Action} (hw : Completes a.states s w) :
    Completes a.states q (a.emitted emits ++ w) := by
  induction h with
  | refl q => exact hw
  | free hstate hmem _ ih => exact .move (u := []) hstate (.free hmem) (ih hw)
  | emit hstate hmem _ ih =>
    rw [emitted_cons hstate]
    exact .move (u := [_]) hstate (.emit hmem) (ih hw)

theorem Ends.extra_eq_nil {text : String} {r s : Nat} {extra : List Nat}
    (h : a.Ends (.token text) r extra s) : extra = [] := by
  cases h with
  | consume => rfl

theorem Ends.completes_token {text : String} {r s : Nat} {extra : List Nat}
    (h : a.Ends (.token text) r extra s) {w : List Action} (hw : Completes a.states s w) :
    Completes a.states r (.read text :: w) := by
  cases h with
  | consume hstate hmem haccepts => exact .move hstate (.read hmem haccepts) hw

theorem Ends.completes_finish {r s : Nat} {extra : List Nat} (h : a.Ends .finish r extra s) :
    Completes a.states r (a.emitted extra) := by
  obtain ⟨rfl, _, ⟨hstate, rfl⟩ | ⟨rule, hstate, rfl⟩⟩ := h.finish_cases
  · have hback : a.states.back? = some .halt := Array.back?_eq_getElem?.trans hstate
    exact .exit hback rfl
  · have hback := Array.back?_eq_getElem?.trans hstate
    rw [emitted_cons hstate]
    exact .exit hback rfl

/-- A completion begins with a step: either it ends the line, or it reads a token and the rest is a
completion again. -/
theorem Completes.exists_ends {q : Nat} {w : List Action} (h : Completes a.states q w) :
    (∃ r emits extra, FreePath a q emits r ∧ a.Ends .finish r extra a.accept ∧
      w = a.emitted (emits ++ extra)) ∨
    ∃ text r s emits rest, FreePath a q emits r ∧ a.Ends (.token text) r [] s ∧
      Completes a.states s rest ∧ w = a.emitted emits ++ .read text :: rest := by
  induction h with
  | @exit last hback hfinal =>
    have hstate : a.state? a.accept = some last := back?_eq_some_getElem hback
    rcases State.isFinal_iff.mp hfinal with rfl | ⟨rule, rfl⟩
    · exact .inl ⟨_, [], [], .refl _, .halt hstate, rfl⟩
    · exact .inl ⟨_, [], [a.accept], .refl _, .emit hstate, (emitted_cons hstate []).symm⟩
  | @move q t state u w hstate hmove hrest ih =>
    cases hmove with
    | free hmem =>
      rcases ih with ⟨r, emits, extra, hpath, hends, rfl⟩ | ⟨text, r, s, emits, rest, hpath, h⟩
      · exact .inl ⟨r, emits, extra, .free hstate hmem hpath, hends, rfl⟩
      · exact .inr ⟨text, r, s, emits, rest, .free hstate hmem hpath, h⟩
    | emit hmem =>
      rcases ih with ⟨r, emits, extra, hpath, hends, rfl⟩ |
        ⟨text, r, s, emits, rest, hpath, hends, hcomp, rfl⟩
      · refine .inl ⟨r, q :: emits, extra, .emit hstate hmem hpath, hends, ?_⟩
        exact (emitted_cons hstate _).symm
      · refine .inr ⟨text, r, s, q :: emits, rest, .emit hstate hmem hpath, hends, hcomp, ?_⟩
        rw [emitted_cons hstate]
        rfl
    | read hmem haccepts =>
      exact .inr ⟨_, q, t, [], w, .refl q, .consume hstate hmem haccepts, hrest, rfl⟩

end Automaton
end CommandGrammar
