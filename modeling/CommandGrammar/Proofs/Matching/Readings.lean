import Mathlib.Data.List.Chain
import CommandGrammar.Proofs.Matching.Recognition

/-!
# The readings that a match finds

A match for readings follows the automaton of a grammar and finds the readings of the grammar.  What
a path has on its stack at the end of the line is what its run has performed
(`exists_completes_of_mem_pathsAlong`), and the runs of the automaton of a grammar perform readings
(`Grammar.traces_automaton`), so nothing is found that is not a reading.

That nothing is missed needs more.  A step leaves no emit state twice, so the search cannot follow
every run of every automaton.  But a claim holds at least one token, and therefore no two rules are
completed between the same two tokens: readings are *spaced* (`Spaced`), and on a spaced run a step
leaves at most one emit state (`FreePath.nodup_of_spaced`).

Main statements:

* `mem_pathsAlong_of_completes`: a spaced completion is followed by a path, with its own stack;
* `Claimed.foldl_perform`: performing a reading leaves the reading on the stack;
* `Grammar.interpret_eq_readings`: a match finds exactly the readings of the line.
-/

namespace CommandGrammar

/-! ## Claims -/

/-- An entry that is a claim on at least one token. -/
def Entry.IsClaimed : Entry → Prop
  | .token _ => False
  | .claim made => made.tokens ≠ []

namespace Grammar

/-- A reading of a grammar is made of claims, and none of them is empty. -/
theorem isClaimed_of_mem_readings {grammar : Grammar} {entries : List Entry}
    (h : entries ∈ grammar.readings) : ∀ entry ∈ entries, entry.IsClaimed := by
  refine denote_le_lettersIn (fun rule => ?_) grammar h
  cases rule with
  | keyword word =>
    rintro _ rfl entry hentry
    rw [List.mem_singleton.mp hentry]
    exact List.cons_ne_nil _ _
  | capture tags =>
    rintro _ ⟨tokens, hne, rfl⟩ entry hentry
    rw [List.mem_singleton.mp hentry]
    exact hne

end Grammar

/-! ## Performing a reading -/

namespace Stack

theorem foldl_perform_map_read (tokens : List String) (stack : Stack) :
    (tokens.map Action.read).foldl perform stack = (tokens.map Entry.token).reverse ++ stack := by
  induction tokens generalizing stack with
  | nil => rfl
  | cons text rest ih =>
    rw [List.map_cons, List.foldl_cons, ih, List.map_cons, List.reverse_cons, List.append_assoc]
    rfl

theorem claimOnto_append (rule : Rule) (claimed tokens : List String) (stack : Stack) :
    claimOnto rule claimed (tokens.map Entry.token ++ stack) =
      claimOnto rule (tokens.reverse ++ claimed) stack := by
  induction tokens generalizing claimed with
  | nil => rfl
  | cons text rest ih =>
    rw [List.map_cons, List.cons_append, claimOnto, ih, List.reverse_cons, List.append_assoc]
    rfl

/-- On a stack of claims, a rule claims the tokens that it is given. -/
theorem claimOnto_of_isClaimed {stack : Stack} (h : ∀ entry ∈ stack, entry.IsClaimed) (rule : Rule)
    (claimed : List String) : claimOnto rule claimed stack = .claim ⟨rule, claimed⟩ :: stack := by
  cases stack with
  | nil => rfl
  | cons top rest =>
    cases top with
    | token text => exact (h _ List.mem_cons_self).elim
    | claim made => rfl

/-- Performing a claim on a stack of claims puts it on top. -/
theorem foldl_perform_actions {stack : Stack} (h : ∀ entry ∈ stack, entry.IsClaimed) (made : Claim) :
    (Entry.claim made).actions.foldl perform stack = .claim made :: stack := by
  rw [Entry.actions, List.foldl_append, foldl_perform_map_read, ← List.map_reverse]
  show complete _ _ = _
  rw [complete, claimOnto_append, List.reverse_reverse, List.append_nil, claimOnto_of_isClaimed h]

/-- Performing a reading leaves the reading on the stack. -/
theorem foldl_perform_flatMap_actions {entries : List Entry} {stack : Stack}
    (hentries : ∀ entry ∈ entries, entry.IsClaimed) (hstack : ∀ entry ∈ stack, entry.IsClaimed) :
    (entries.flatMap Entry.actions).foldl perform stack = entries.reverse ++ stack := by
  induction entries generalizing stack with
  | nil => rfl
  | cons first rest ih =>
    have hfirst := hentries first List.mem_cons_self
    cases first with
    | token text => exact hfirst.elim
    | claim made =>
      rw [List.flatMap_cons, List.foldl_append, foldl_perform_actions hstack,
        ih (fun entry h => hentries entry (List.mem_cons_of_mem _ h)), List.reverse_cons,
        List.append_assoc]
      · rfl
      · intro entry hentry
        rcases List.mem_cons.mp hentry with rfl | hentry
        · exact hfirst
        · exact hstack entry hentry

end Stack

/-! ## Spaced runs -/

/-- Of two actions that follow each other, one reads a token: no two rules are completed between the
same two tokens. -/
def Spaced (w : List Action) : Prop :=
  w.IsChain fun first second => first.tokens ≠ [] ∨ second.tokens ≠ []

theorem spaced_map_read (tokens : List String) : Spaced (tokens.map Action.read) := by
  induction tokens with
  | nil => exact .nil
  | cons text rest ih =>
    refine List.isChain_cons.mpr ⟨fun _ _ => ?_, ih⟩
    exact Or.inl (List.cons_ne_nil _ _)

/-- What an automaton does to make a reading is spaced, because every claim begins with a token. -/
theorem spaced_flatMap_actions {entries : List Entry} (h : ∀ entry ∈ entries, entry.IsClaimed) :
    Spaced (entries.flatMap Entry.actions) ∧
      ∀ action ∈ (entries.flatMap Entry.actions).head?, action.tokens ≠ [] := by
  induction entries with
  | nil => exact ⟨.nil, fun _ haction => absurd haction (Option.not_mem_none _)⟩
  | cons first rest ih =>
    have hfirst := h first List.mem_cons_self
    obtain ⟨hspaced, hhead⟩ := ih fun entry hentry => h entry (List.mem_cons_of_mem _ hentry)
    cases first with
    | token text => exact hfirst.elim
    | claim made =>
      obtain ⟨rule, tokens⟩ := made
      cases tokens with
      | nil => exact absurd rfl hfirst
      | cons text more =>
        rw [List.flatMap_cons, Entry.actions, List.append_assoc]
        refine ⟨?_, ?_⟩
        · refine List.isChain_append.mpr ⟨spaced_map_read _, ?_, ?_⟩
          · exact List.isChain_cons.mpr ⟨fun action haction => Or.inr (hhead action haction), hspaced⟩
          · intro action haction _ _
            obtain ⟨token, _, rfl⟩ := List.mem_map.mp (List.mem_of_getLast? haction)
            exact Or.inl (List.cons_ne_nil _ _)
        · intro action haction
          rw [← Option.some.inj haction]
          exact List.cons_ne_nil _ _

namespace Automaton

variable {a : Automaton}

/-- On a spaced run a step leaves at most one emit state, so none twice. -/
theorem FreePath.nodup_of_spaced {q s : Nat} {emits : List Nat} {w : List Action}
    (h : FreePath a q emits s) (hspaced : Spaced (a.emitted emits ++ w)) : emits.Nodup := by
  have hsilent : ∀ action ∈ a.emitted emits, action.tokens = [] :=
    List.flatMap_eq_nil_iff.mp (flatMap_tokens_emitted emits)
  have hlength := h.length_emitted
  rcases hemitted : a.emitted emits with _ | ⟨first, _ | ⟨second, more⟩⟩
  · rw [hemitted] at hlength
    rw [List.length_eq_zero_iff.mp hlength.symm]
    exact List.nodup_nil
  · rw [hemitted] at hlength
    obtain ⟨id, rfl⟩ := List.length_eq_one_iff.mp hlength.symm
    exact List.nodup_singleton id
  · rw [hemitted] at hspaced hsilent
    rcases (List.isChain_cons_cons.mp hspaced).1 with hfirst | hsecond
    · exact absurd (hsilent first List.mem_cons_self) hfirst
    · exact absurd (hsilent second (List.mem_cons_of_mem _ List.mem_cons_self)) hsecond

/-- A spaced completion is followed by a path along what it reads, which performs it. -/
theorem mem_pathsAlong_of_completes {tokens : List String} {q : Nat} {w : List Action}
    (hw : Completes a.states q w) (hspaced : Spaced w) (htokens : w.flatMap Action.tokens = tokens)
    (stack : Stack) :
    ⟨a.accept, w.foldl Stack.perform stack⟩ ∈
      a.pathsAlong (Symbol.ofTokens tokens) ⟨q, stack⟩ := by
  induction tokens generalizing q w stack with
  | nil =>
    obtain ⟨r, emits, extra, hpath, hends, rfl⟩ := hw.exists_ends_finish htokens
    rw [emitted_append] at hspaced
    have hstep : ⟨emits ++ extra, a.accept⟩ ∈ a.steps q .finish :=
      mem_steps_iff.mpr ⟨r, emits, extra, hpath, hpath.nodup_of_spaced hspaced, hends, rfl⟩
    rw [ofTokens_nil, mem_pathsAlong_cons]
    refine ⟨_, List.mem_map_of_mem hstep, ?_⟩
    rw [follow_finish]
    exact List.mem_singleton_self _
  | cons token tokens ih =>
    obtain ⟨r, s, emits, rest, hpath, hends, hrest, hrestTokens, rfl⟩ :=
      hw.exists_ends_token htokens
    have hstep : ⟨emits, s⟩ ∈ a.steps q (.token token) :=
      mem_steps_iff.mpr ⟨r, emits, [], hpath, hpath.nodup_of_spaced hspaced, hends,
        (List.append_nil _).symm⟩
    have hspacedRest : Spaced rest :=
      (List.isChain_cons.mp (List.isChain_append.mp hspaced).2.1).2
    rw [List.append_cons, List.foldl_append, ofTokens_cons, mem_pathsAlong_cons]
    refine ⟨_, List.mem_map_of_mem hstep, ?_⟩
    rw [follow_token]
    exact ih hrest hspacedRest hrestTokens _

end Automaton

/-! ## Matching against a grammar -/

namespace Grammar

/-- The readings of a line: those of the grammar whose claims, put together, are the line. -/
def readingsOf (grammar : Grammar) (tokens : List String) : Set (List Entry) :=
  {entries | entries ∈ grammar.readings ∧ entries.flatMap Entry.tokens = tokens}

/-- The paths along a line hold its readings. -/
theorem exists_mem_pathsAlong_iff {grammar : Grammar} {tokens : List String}
    {entries : List Entry} :
    (∃ final ∈ grammar.automaton.pathsAlong (Symbol.ofTokens tokens) ⟨grammar.automaton.start, []⟩,
      final.stack.reading = ⟨entries⟩) ↔ entries ∈ grammar.readingsOf tokens := by
  have hnone : ∀ entry ∈ ([] : Stack), entry.IsClaimed := fun _ h => absurd h List.not_mem_nil
  constructor
  · rintro ⟨final, hfinal, hreading⟩
    obtain ⟨w, hw, htokens, hstack⟩ := Automaton.exists_completes_of_mem_pathsAlong hfinal
    have htrace : w ∈ respell Entry.actions grammar.readings := by
      rw [← traces_automaton]
      exact hw
    obtain ⟨others, hothers, rfl⟩ := htrace
    rw [Stack.foldl_perform_flatMap_actions (isClaimed_of_mem_readings hothers) hnone,
      List.append_nil] at hstack
    rw [Stack.reading, hstack, List.reverse_reverse] at hreading
    rw [← Interpretation.mk.inj hreading]
    exact ⟨hothers, (Entry.flatMap_tokens_flatMap_actions others).symm.trans htokens⟩
  · rintro ⟨hentries, htokens⟩
    have hclaimed := isClaimed_of_mem_readings hentries
    have htrace : entries.flatMap Entry.actions ∈ Automaton.traces grammar.automaton.states := by
      rw [traces_automaton]
      exact ⟨entries, hentries, rfl⟩
    refine ⟨_, Automaton.mem_pathsAlong_of_completes htrace (spaced_flatMap_actions hclaimed).1
      ((Entry.flatMap_tokens_flatMap_actions entries).trans htokens) [], ?_⟩
    rw [Stack.foldl_perform_flatMap_actions hclaimed hnone, List.append_nil, Stack.reading,
      List.reverse_reverse]

/-- **A match finds exactly the readings of the line.**  With a limit that is large enough, and with
any limit that is not passed, a line that has readings is matched, and what is found are its
readings; a line without readings is not matched.  No reading holds a token that is not claimed. -/
theorem interpret_eq_readings (grammar : Grammar) (tokens : List String) :
    (∃ bound, ∀ options : MatchOptions, bound ≤ options.maxLivePaths →
      ¬ Automaton.Flooded (grammar.automaton.interpret options tokens)) ∧
    ∀ options, ¬ Automaton.Flooded (grammar.automaton.interpret options tokens) →
      ((grammar.readingsOf tokens).Nonempty → ∃ found,
        grammar.automaton.interpret options tokens = .ok found ∧
        {entries | (⟨entries⟩ : Interpretation) ∈ found} = grammar.readingsOf tokens ∧
        ∀ reading ∈ found, ∀ entry ∈ reading.entries, ∃ made, entry = .claim made) ∧
      (grammar.readingsOf tokens = ∅ → ∃ failures,
        grammar.automaton.interpret options tokens = .error (.noMatch failures)) := by
  refine ⟨grammar.automaton.exists_limit_interpret tokens, fun options hlimit => ?_⟩
  cases hresult : grammar.automaton.interpret options tokens with
  | ok found =>
    obtain ⟨hne, hfound⟩ := Automaton.interpret_eq_ok hresult
    have hmem : ∀ entries, ⟨entries⟩ ∈ found ↔ entries ∈ grammar.readingsOf tokens :=
      fun entries => (hfound ⟨entries⟩).trans exists_mem_pathsAlong_iff
    refine ⟨fun _ => ⟨found, rfl, Set.ext hmem, ?_⟩, fun hempty => ?_⟩
    · intro reading hreading entry hentry
      have hclaimed := isClaimed_of_mem_readings ((hmem reading.entries).mp hreading).1 entry hentry
      cases entry with
      | token text => exact hclaimed.elim
      | claim made => exact ⟨made, rfl⟩
    · obtain ⟨reading, hreading⟩ := List.exists_mem_of_ne_nil found hne
      have hmember := (hmem reading.entries).mp hreading
      rw [hempty] at hmember
      exact hmember.elim
  | error failure =>
    cases failure with
    | tooManyPaths limit position => exact absurd ⟨limit, position, hresult⟩ hlimit
    | noMatch failures =>
      refine ⟨fun ⟨entries, hentries⟩ => ?_, fun _ => ⟨failures, rfl⟩⟩
      obtain ⟨final, hfinal, _⟩ := exists_mem_pathsAlong_iff.mpr hentries
      rw [Automaton.interpret_eq_noMatch hresult] at hfinal
      cases hfinal

/-- A repeated capture is read in every way in which the line can be cut, and all of these readings
are found. -/
theorem interpret_eq_readings_splits :
    ∃ options found, (quantified .star (.leaf (.capture ["X"]))).automaton.interpret options
        ["a", "b"] = .ok found ∧
      (⟨[.claim ⟨.capture ["X"], ["a", "b"]⟩]⟩ : Interpretation) ∈ found ∧
      (⟨[.claim ⟨.capture ["X"], ["a"]⟩, .claim ⟨.capture ["X"], ["b"]⟩]⟩ : Interpretation) ∈
        found := by
  have hclaim : ∀ tokens ≠ [], [.claim ⟨.capture ["X"], tokens⟩] ∈
      denote Rule.readings (.leaf (.capture ["X"])) := fun tokens hne => ⟨tokens, hne, rfl⟩
  have hwhole : [.claim ⟨.capture ["X"], ["a", "b"]⟩] ∈
      (quantified .star (.leaf (.capture ["X"]))).readingsOf ["a", "b"] := by
    refine ⟨⟨[[.claim ⟨.capture ["X"], ["a", "b"]⟩]], rfl, ?_⟩, rfl⟩
    simp [hclaim]
  have hcut : [.claim ⟨.capture ["X"], ["a"]⟩, .claim ⟨.capture ["X"], ["b"]⟩] ∈
      (quantified .star (.leaf (.capture ["X"]))).readingsOf ["a", "b"] := by
    refine ⟨⟨[[.claim ⟨.capture ["X"], ["a"]⟩], [.claim ⟨.capture ["X"], ["b"]⟩]], rfl, ?_⟩, rfl⟩
    simp [hclaim]
  obtain ⟨⟨bound, hbound⟩, hmatch⟩ :=
    interpret_eq_readings (quantified .star (.leaf (.capture ["X"]))) ["a", "b"]
  have hlimit := hbound ⟨bound, true⟩ (Nat.le_refl bound)
  obtain ⟨found, hfound, hreadings, _⟩ := (hmatch ⟨bound, true⟩ hlimit).1 ⟨_, hwhole⟩
  rw [← hreadings] at hwhole hcut
  exact ⟨⟨bound, true⟩, found, hfound, hwhole, hcut⟩

end Grammar

end CommandGrammar
