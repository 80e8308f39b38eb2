import CommandGrammar.Proofs.Matching.Closure
import CommandGrammar.Proofs.Matching.Cuts

/-!
# The end mark makes no more paths

Across a token a path may go on in several ways.  Across the end mark it can only end, in the
accepting state, and two ways to end differ in the emit states that they leave.  In an orderly table
the emit states on the way to the end are settled by what is due, so a path ends in at most one way:
the steps across the end mark are all the same, and a search finds no step twice.

The frontier after the last token is therefore at least as long as the one after the end mark, and a
match that has come to the end mark within its limit does not pass the limit there.
-/

namespace CommandGrammar
namespace Automaton

variable {a : Automaton}

/-! ## Steps across the end mark -/

/-- All ends of a line are alike. -/
theorem Ends.finish_unique {q r s t : Nat} {extra others : List Nat}
    (h : a.Ends .finish q extra s) (h' : a.Ends .finish r others t) : q = r ∧ extra = others := by
  obtain ⟨rfl, _, hextra⟩ := h.finish_cases
  obtain ⟨rfl, _, hothers⟩ := h'.finish_cases
  refine ⟨rfl, ?_⟩
  rcases hextra with ⟨hstate, rfl⟩ | ⟨rule, hstate, rfl⟩
  · rcases hothers with ⟨_, rfl⟩ | ⟨other, hother, rfl⟩
    · rfl
    · rw [hstate] at hother
      cases hother
  · rcases hothers with ⟨hother, rfl⟩ | ⟨_, _, rfl⟩
    · rw [hstate] at hother
      cases hother
    · rfl

theorem nodup_taken_finish (visit : Visit) : (a.taken .finish visit).Nodup := by
  cases hstate : a.state? visit.state with
  | none => simp [taken, hstate]
  | some state =>
    cases state with
    | halt =>
      simp only [taken, hstate]
      split <;> simp
    | consume transitions => simp [taken, hstate, Label.accepts_finish]
    | free next => simp [taken, hstate]
    | emit rule next =>
      cases next with
      | nil =>
        simp only [taken, hstate]
        split <;> simp
      | cons => simp [taken, hstate]

/-- No step across the end mark is found twice. -/
theorem nodup_steps_finish (a : Automaton) (q : Nat) : (a.steps q .finish).Nodup := by
  refine Search.nodup_explore nodup_taken_finish ?_
  rintro ⟨q, emits⟩ ⟨r, others⟩ step hstep hother
  obtain ⟨extra, hends, hemits⟩ := mem_taken_iff.mp hstep
  obtain ⟨extra', hends', hothers⟩ := mem_taken_iff.mp hother
  obtain ⟨rfl, rfl⟩ := hends.finish_unique hends'
  rw [List.append_cancel_right (hemits.symm.trans hothers)]

namespace Orderly

/-- On a way to the end of the line a path leaves the emit state that is due. -/
theorem emits_of_ends_finish (h : Orderly a.states) {q r s : Nat} {emits extra : List Nat}
    (hpath : FreePath a q emits r) (hends : a.Ends .finish r extra s) :
    ∃ due, Due a.states q due ∧ emits ++ extra = due.toList := by
  rcases h.emits_of_ends hpath hends with hnone | ⟨e, hsome, hdue⟩
  · obtain ⟨hemits, hextra⟩ := List.append_eq_nil_iff.mp hnone
    obtain ⟨rfl, _, ⟨hstate, _⟩ | ⟨_, _, rfl⟩⟩ := hends.finish_cases
    · exact ⟨none, hpath.due hemits (.halt hstate), hnone⟩
    · cases hextra
  · exact ⟨some e, hdue, hsome⟩

/-- A path has at most one step across the end mark. -/
theorem length_steps_finish_le_one (h : Orderly a.states) (q : Nat) :
    (a.steps q .finish).length ≤ 1 := by
  have hsame : ∀ step ∈ a.steps q .finish, ∀ other ∈ a.steps q .finish, step = other := by
    intro step hstep other hother
    obtain ⟨_, _, _, hpath, _, hends, hemits⟩ := mem_steps_iff.mp hstep
    obtain ⟨_, _, _, hpath', _, hends', hemits'⟩ := mem_steps_iff.mp hother
    obtain ⟨due, hdue, heq⟩ := h.emits_of_ends_finish hpath hends
    obtain ⟨due', hdue', heq'⟩ := h.emits_of_ends_finish hpath' hends'
    rw [Step.mk.injEq, hemits, heq, hemits', heq', h.unique hdue hdue',
      target_of_mem_steps_finish hstep, target_of_mem_steps_finish hother]
    exact ⟨rfl, rfl⟩
  have hnodup := a.nodup_steps_finish q
  match hsteps : a.steps q .finish with
  | [] => exact Nat.zero_le 1
  | [_] => exact Nat.le_refl 1
  | step :: other :: rest =>
    rw [hsteps] at hnodup hsame
    have heq := hsame step List.mem_cons_self other (List.mem_cons_of_mem _ List.mem_cons_self)
    exact absurd (heq ▸ List.mem_cons_self) (List.nodup_cons.mp hnodup).1

/-! ## The limit -/

variable {options : MatchOptions}

/-- The frontier is not longer after the end mark than before it. -/
theorem length_crossing_finish_le (h : Orderly a.states) (options : MatchOptions)
    (frontier : List Path) :
    (a.crossing options frontier .finish).length ≤ frontier.length := by
  refine Nat.le_trans (MatchOptions.length_kept_le _) ?_
  induction frontier with
  | nil => exact Nat.le_refl 0
  | cons path rest ih =>
    have hpath := h.length_steps_finish_le_one path.state
    rw [List.flatMap_cons, List.length_append, pathsAfter, List.length_map, List.length_cons]
    omega

/-- A frontier that the limit admits crosses the end mark. -/
theorem exists_advance_finish (h : Orderly a.states) {frontier : List Path}
    (hwithin : frontier.length ≤ options.limit) :
    ∃ next, a.advance options frontier .finish = some next ∧ next.length ≤ frontier.length := by
  have hle := h.length_crossing_finish_le options frontier
  refine ⟨a.crossing options frontier .finish, ?_, hle⟩
  rw [advance_eq, if_neg (Nat.not_lt.mpr (Nat.le_trans hle hwithin))]

/-- A match passes its limit at a token or not at all. -/
theorem lt_length_of_tooManyPaths (h : Orderly a.states) {tokens : List String}
    {limit position : Nat}
    (hresult : a.interpret options tokens = .error (.tooManyPaths limit position)) :
    position < tokens.length := by
  obtain ⟨_, hmem, hleast⟩ := interpret_eq_tooManyPaths_iff.mp hresult
  obtain ⟨hle, hlimit⟩ := mem_floodings_ofTokens_iff.mp hmem
  by_contra hnot
  obtain rfl : position = tokens.length := by omega
  have hbefore := h.length_crossing_finish_le options (a.frontierAt options tokens tokens.length)
  rw [frontierAt_succ (getElem?_ofTokens_length tokens)] at hlimit
  cases hlength : tokens.length with
  | zero =>
    rw [hlength, frontierAt_zero, List.length_singleton] at hbefore
    rw [hlength, frontierAt_zero] at hlimit
    have hone : 1 ≤ options.limit := Nat.le_max_left ..
    omega
  | succ count =>
    -- the frontier before the end mark is too long already
    rw [hlength] at hbefore hlimit
    have hearlier : tokens.length ≤ count :=
      hleast (mem_floodings_ofTokens_iff.mpr ⟨by omega, Nat.lt_of_lt_of_le hlimit hbefore⟩)
    omega

end Orderly

/-- **The end mark makes no more paths.**  In the automaton of a grammar there is at most one step
across the end mark from each state.  So a frontier that the limit admits crosses it and does not
become longer, and a match that passes its limit does so at one of the tokens. -/
theorem end_mark_within_limit (grammar : Grammar) (options : MatchOptions) (tokens : List String) :
    (∀ q, (grammar.automaton.steps q .finish).length ≤ 1) ∧
    (∀ frontier, frontier.length ≤ max 1 options.maxLivePaths → ∃ next,
      grammar.automaton.advance options frontier .finish = some next ∧
        next.length ≤ frontier.length) ∧
    ∀ limit position,
      grammar.automaton.interpret options tokens = .error (.tooManyPaths limit position) →
      position < tokens.length :=
  have h := grammar.orderly_automaton
  ⟨h.length_steps_finish_le_one, fun _ => h.exists_advance_finish,
    fun _ _ => h.lt_length_of_tooManyPaths⟩

/-- A repeated capture that passes a limit of one on two tokens does so at the last of them. -/
theorem end_mark_within_limit_items :
    items.automaton.interpret ⟨1, true⟩ ["a", "b"] = .error (.tooManyPaths 1 1) ∧
      1 < ["a", "b"].length := by
  have hleast : IsLeast {p | MatchOptions.limit ⟨1, true⟩ < 2 ^ p} 1 := by
    refine ⟨by decide, fun p hp => ?_⟩
    cases p with
    | zero => exact absurd hp (by decide)
    | succ p => exact Nat.succ_pos p
  have hflooded : items.automaton.interpret ⟨1, true⟩ ["a", "b"] = .error (.tooManyPaths 1 1) :=
    interpret_items_of_limit_lt (by decide) hleast
  exact ⟨hflooded, (end_mark_within_limit items ⟨1, true⟩ ["a", "b"]).2.2 1 1 hflooded⟩

end Automaton
end CommandGrammar
