import CommandGrammar.Proofs.Matching.FailurePoint

/-!
# What a failed match expected

A failure lists what could have stood in the place of the symbol that was received.  The list comes
from a search of its own (`Automaton.expected`), which follows free transitions like the search for
steps but visits every state once, whatever rules were left on the way.  The two searches come to
the same states (`leads_freeSuccessors_iff`).  A state that consumes the received symbol would have
nothing to report; but where a match has failed there is no such state, so every label that is in
reach is reported.  Hence a state that cannot cross the received symbol expects exactly the symbols
that it can cross:

* `exists_label_expected_iff`: a label that accepts a token is expected exactly when there is a step
  across the token;
* `nothing_mem_expected_iff`: the end of the line is expected exactly when there is a step across
  the end mark and a token was received in its place.

Together the paths of the last frontier are all paths along the tokens before the failure.  In the
automaton of a grammar whatever they can cross begins a line, so what a failed match expected are
exactly the acceptable continuations (`Grammar.expectations_are_continuations`).
-/

namespace CommandGrammar

/-- A label for a token is its own word or the label for any token. -/
theorem Label.accepts_token_iff {label : Label} {text : String} :
    label.accepts (.token text) = true ↔ label = .word text ∨ label = .any := by
  cases label with
  | word expected => simp
  | any => simp

theorem MatchError.mem_expectations_iff {failures : OrderedSet Failure} {e : Expectation} :
    e ∈ expectations failures ↔ ∃ failure ∈ failures, e ∈ failure.expected := by
  rw [expectations, OrderedSet.mem_ofList, List.mem_flatMap]
  rfl

namespace Automaton

variable {a : Automaton} {q r : Nat} {symbol : Symbol}

/-! ## The states in reach -/

theorem mem_freeSuccessors_free {next : List Nat} (h : a.state? q = some (.free next)) :
    r ∈ a.freeSuccessors q ↔ r ∈ next := by
  rw [freeSuccessors, h]

theorem mem_freeSuccessors_emit {rule : Rule} {next : List Nat}
    (h : a.state? q = some (.emit rule next)) : r ∈ a.freeSuccessors q ↔ r ∈ next := by
  rw [freeSuccessors, h]

/-- A free successor is at the end of a free path of one transition. -/
theorem exists_freePath_of_mem_freeSuccessors (h : r ∈ a.freeSuccessors q) :
    ∃ emits, FreePath a q emits r := by
  unfold freeSuccessors at h
  split at h
  · next next hstate => exact ⟨[], .free hstate h (.refl r)⟩
  · next rule next hstate => exact ⟨[q], .emit hstate h (.refl r)⟩
  · cases h

theorem FreePath.leads_freeSuccessors {emits : List Nat} (h : FreePath a q emits r) {start : Nat}
    (hstart : Search.Leads a.freeSuccessors start q) :
    Search.Leads a.freeSuccessors start r := by
  induction h with
  | refl q => exact hstart
  | free hstate hmem _ ih => exact ih (.step hstart ((mem_freeSuccessors_free hstate).mpr hmem))
  | emit hstate hmem _ ih => exact ih (.step hstart ((mem_freeSuccessors_emit hstate).mpr hmem))

/-- Free transitions lead to the ends of free paths, whatever is emitted on the way. -/
theorem leads_freeSuccessors_iff :
    Search.Leads a.freeSuccessors q r ↔ ∃ emits, FreePath a q emits r := by
  constructor
  · intro h
    induction h with
    | refl => exact ⟨[], .refl q⟩
    | step _ hmem ih =>
      obtain ⟨emits, hpath⟩ := ih
      obtain ⟨others, hlast⟩ := exists_freePath_of_mem_freeSuccessors hmem
      exact ⟨emits ++ others, hpath.trans hlast⟩
  · rintro ⟨emits, hpath⟩
    exact hpath.leads_freeSuccessors .refl

/-! ## What a state expects -/

/-- A state expects what is reported by the states at the ends of its free paths. -/
theorem mem_expected_iff {e : Expectation} :
    e ∈ a.expected q symbol ↔ ∃ r emits, FreePath a q emits r ∧ e ∈ a.expectedAt symbol r := by
  rw [expected, OrderedSet.mem_ofList]
  refine Search.mem_exploreFrom_iff.trans ?_
  simp only [leads_freeSuccessors_iff, exists_and_right]

/-- What a state by itself reports. -/
inductive Reports (a : Automaton) (symbol : Symbol) (r : Nat) : Expectation → Prop where
  /-- A state that consumes reports its labels, unless one of them accepts the symbol. -/
  | label {transitions : Transitions} {label : Label} :
      a.state? r = some (.consume transitions) →
      (∀ other ∈ transitions.labels, other.accepts symbol = false) →
      label ∈ transitions.labels → Reports a symbol r (.label label)
  /-- Where the line could have ended, the end of the line is reported in the place of a token. -/
  | nothing {extra : List Nat} : symbol ≠ .finish → a.Ends .finish r extra a.accept →
      Reports a symbol r .nothing

theorem mem_expectedAt_iff {e : Expectation} :
    e ∈ a.expectedAt symbol r ↔ a.Reports symbol r e := by
  constructor
  · intro h
    unfold expectedAt at h
    split at h
    · next transitions hstate =>
      split at h
      · cases h
      · next hnone =>
        obtain ⟨label, hlabel, rfl⟩ := List.mem_map.mp h
        rw [Bool.not_eq_true, List.any_eq_false] at hnone
        exact .label hstate (fun other hother => Bool.eq_false_iff.mpr (hnone other hother)) hlabel
    · next hstate =>
      split at h
      · next hend =>
        obtain ⟨rfl, hreceived⟩ := hend
        rw [List.mem_singleton.mp h]
        exact .nothing hreceived (.halt hstate)
      · cases h
    · next rule hstate =>
      split at h
      · next hend =>
        obtain ⟨rfl, hreceived⟩ := hend
        rw [List.mem_singleton.mp h]
        exact .nothing hreceived (.emit hstate)
      · cases h
    · cases h
  · intro h
    cases h with
    | @label transitions _ hstate hnone hlabel =>
      have hnone : ¬ transitions.labels.any (·.accepts symbol) = true := by
        rw [Bool.not_eq_true, List.any_eq_false]
        exact fun other hother => Bool.eq_false_iff.mp (hnone other hother)
      rw [expectedAt, hstate]
      simp only [if_neg hnone]
      exact List.mem_map_of_mem hlabel
    | nothing hreceived hends =>
      cases hends with
      | consume _ _ haccepts =>
        rw [Label.accepts_finish] at haccepts
        cases haccepts
      | halt hstate =>
        rw [expectedAt, hstate]
        simp only [ne_eq, hreceived, not_false_eq_true, and_self, if_true]
        exact List.mem_singleton_self _
      | emit hstate =>
        rw [expectedAt, hstate]
        simp only [ne_eq, hreceived, not_false_eq_true, and_self, if_true]
        exact List.mem_singleton_self _

/-- Nothing but labels and the end of the line is ever expected. -/
theorem eq_label_or_nothing_of_mem_expected {e : Expectation} (h : e ∈ a.expected q symbol) :
    (∃ label, e = .label label) ∨ e = .nothing := by
  obtain ⟨r, emits, _, hreport⟩ := mem_expected_iff.mp h
  cases mem_expectedAt_iff.mp hreport with
  | label => exact .inl ⟨_, rfl⟩
  | nothing => exact .inr rfl

/-! ## What a state expects and what it can cross -/

/-- There is a step exactly when some free path leads to where a step ends. -/
theorem steps_ne_nil_iff :
    a.steps q symbol ≠ [] ↔ ∃ r emits extra s, FreePath a q emits r ∧ a.Ends symbol r extra s := by
  constructor
  · intro h
    obtain ⟨step, hstep⟩ := List.exists_mem_of_ne_nil _ h
    obtain ⟨r, emits, extra, hpath, hends⟩ := exists_mem_steps_iff.mp ⟨step, hstep, rfl⟩
    exact ⟨r, emits, extra, step.target, hpath, hends⟩
  · rintro ⟨r, emits, extra, s, hpath, hends⟩
    obtain ⟨step, hstep, _⟩ := exists_mem_steps_iff.mpr ⟨r, emits, extra, hpath, hends⟩
    exact List.ne_nil_of_mem hstep

/-- A state that cannot cross the received symbol expects a label for a token exactly when it can
cross the token. -/
theorem exists_label_expected_iff (hblocked : a.steps q symbol = []) {text : String} :
    (∃ label, .label label ∈ a.expected q symbol ∧ label.accepts (.token text) = true) ↔
      a.steps q (.token text) ≠ [] := by
  rw [steps_ne_nil_iff]
  constructor
  · rintro ⟨label, hexpected, haccepts⟩
    obtain ⟨r, emits, hpath, hreport⟩ := mem_expected_iff.mp hexpected
    cases mem_expectedAt_iff.mp hreport with
    | label hstate _ hlabel =>
      obtain ⟨⟨_, s⟩, hmem, rfl⟩ := List.mem_map.mp hlabel
      exact ⟨r, emits, [], s, hpath, .consume hstate hmem haccepts⟩
  · rintro ⟨r, emits, extra, s, hpath, hends⟩
    cases hends with
    | @consume _ _ _ transitions label hstate hmem haccepts =>
      refine ⟨label, mem_expected_iff.mpr ⟨r, emits, hpath, mem_expectedAt_iff.mpr ?_⟩, haccepts⟩
      refine .label hstate (fun other hother => ?_) (List.mem_map.mpr ⟨_, hmem, rfl⟩)
      -- a label that accepts the received symbol would have made a step
      obtain ⟨⟨_, t⟩, htransition, rfl⟩ := List.mem_map.mp hother
      by_contra haccepted
      rw [Bool.not_eq_false] at haccepted
      have hends : a.Ends symbol r [] t := .consume hstate htransition haccepted
      exact steps_ne_nil_iff.mpr ⟨r, emits, [], t, hpath, hends⟩ hblocked

/-- The end of the line is expected where the end mark can be crossed, if a token was received. -/
theorem nothing_mem_expected_iff :
    .nothing ∈ a.expected q symbol ↔ symbol ≠ .finish ∧ a.steps q .finish ≠ [] := by
  rw [steps_ne_nil_iff, mem_expected_iff]
  constructor
  · rintro ⟨r, emits, hpath, hreport⟩
    cases mem_expectedAt_iff.mp hreport with
    | nothing hreceived hends => exact ⟨hreceived, r, emits, _, _, hpath, hends⟩
  · rintro ⟨hreceived, r, emits, extra, s, hpath, hends⟩
    obtain rfl := hends.finish_cases.2.1
    exact ⟨r, emits, hpath, mem_expectedAt_iff.mpr (.nothing hreceived hends)⟩

/-- From a state from which a run can be completed some symbol can be crossed. -/
theorem exists_steps_ne_nil (h : CanEnd a.states q) : ∃ other, a.steps q other ≠ [] := by
  obtain ⟨w, hw⟩ := h
  rcases hw.exists_ends with ⟨r, emits, extra, hpath, hends, _⟩ |
    ⟨text, r, s, emits, _, hpath, hends, _⟩
  · exact ⟨.finish, steps_ne_nil_iff.mpr ⟨r, emits, extra, _, hpath, hends⟩⟩
  · exact ⟨.token text, steps_ne_nil_iff.mpr ⟨r, emits, [], s, hpath, hends⟩⟩

/-- A state from which a run can be completed, but not across the received symbol, expects
something. -/
theorem exists_mem_expected (h : CanEnd a.states q) (hblocked : a.steps q symbol = []) :
    ∃ e, e ∈ a.expected q symbol := by
  obtain ⟨other, hother⟩ := exists_steps_ne_nil h
  cases other with
  | token text =>
    obtain ⟨label, hexpected, _⟩ := (exists_label_expected_iff hblocked).mpr hother
    exact ⟨.label label, hexpected⟩
  | finish =>
    refine ⟨.nothing, nothing_mem_expected_iff.mpr ⟨?_, hother⟩⟩
    rintro rfl
    exact hother hblocked

/-! ## Paths along a line -/

/-- The paths along tokens after which a line may go on or end. -/
def openPaths (a : Automaton) (tokens : List String) : List Path :=
  a.pathsAlong (tokens.map .token) ⟨a.start, []⟩

/-- The frontier after some tokens of a line holds the paths along them. -/
theorem mem_frontierAt_iff_mem_openPaths {options : MatchOptions} {tokens : List String} {p : Nat}
    (hp : p ≤ tokens.length) {path : Path} :
    path ∈ a.frontierAt options tokens p ↔ path ∈ a.openPaths (tokens.take p) :=
  mem_frontierAt_iff hp

section

variable {tokens : List String}

/-- Symbols can be followed by one more exactly when some path along them can cross it. -/
theorem exists_mem_pathsAlong_snoc_iff {symbols : List Symbol} {path : Path} :
    (∃ final, final ∈ a.pathsAlong (symbols ++ [symbol]) path) ↔
      ∃ between ∈ a.pathsAlong symbols path, a.steps between.state symbol ≠ [] := by
  constructor
  · rintro ⟨final, hfinal⟩
    obtain ⟨between, hbetween, hfinal⟩ := mem_pathsAlong_append.mp hfinal
    obtain ⟨next, hnext, _⟩ := mem_pathsAlong_cons.mp hfinal
    obtain ⟨step, hstep, _⟩ := List.mem_map.mp hnext
    exact ⟨between, hbetween, List.ne_nil_of_mem hstep⟩
  · rintro ⟨between, hbetween, hne⟩
    obtain ⟨step, hstep⟩ := List.exists_mem_of_ne_nil _ hne
    refine ⟨a.follow symbol between step, mem_pathsAlong_append.mpr ⟨between, hbetween, ?_⟩⟩
    exact mem_pathsAlong_cons.mpr ⟨_, List.mem_map_of_mem hstep, List.mem_singleton_self _⟩

/-- A line is accepted exactly when some path along its tokens can cross the end mark. -/
theorem accepts_iff_exists_steps :
    a.accepts tokens = true ↔ ∃ path ∈ a.openPaths tokens, a.steps path.state .finish ≠ [] := by
  rw [accepts_iff_exists_path [], Symbol.ofTokens, exists_mem_pathsAlong_snoc_iff]
  rfl

/-- Where there are no dead ends, tokens begin an accepted line exactly when some path leads along
them. -/
theorem viable_iff_exists_path (hends : Coaccessible a.states) :
    a.Viable tokens ↔ ∃ path, path ∈ a.openPaths tokens := by
  have hle := Nat.le_refl tokens.length
  have hmem : ∀ path, path ∈ a.frontierAt .standard tokens tokens.length ↔
      path ∈ a.openPaths tokens := by
    intro path
    rw [mem_frontierAt_iff_mem_openPaths hle, List.take_length]
  have hviable := @viable_of_frontierAt_ne_nil a .standard hends tokens _ hle
  have halive := @frontierAt_ne_nil_of_viable a .standard tokens _ hle
  rw [List.take_length] at hviable halive
  constructor
  · intro h
    obtain ⟨path, hpath⟩ := List.exists_mem_of_ne_nil _ (halive h)
    exact ⟨path, (hmem path).mp hpath⟩
  · rintro ⟨path, hpath⟩
    exact hviable (List.ne_nil_of_mem ((hmem path).mpr hpath))

/-- Where there are no dead ends, tokens and one more begin an accepted line exactly when some path
along the tokens can cross the one more. -/
theorem viable_snoc_iff (hends : Coaccessible a.states) {text : String} :
    a.Viable (tokens ++ [text]) ↔
      ∃ path ∈ a.openPaths tokens, a.steps path.state (.token text) ≠ [] := by
  rw [viable_iff_exists_path hends, openPaths, List.map_append, List.map_singleton,
    exists_mem_pathsAlong_snoc_iff]
  rfl

end

/-! ## A match that has failed -/

/-- The symbol after the first `p` tokens of a line is crossed by no path along these tokens, though
there are such paths, and the failures are theirs. -/
structure FailsAt (a : Automaton) (tokens : List String) (failures : OrderedSet Failure) (p : Nat)
    (symbol : Symbol) : Prop where
  next : (Symbol.ofTokens tokens)[p]? = some symbol
  alive : ∃ path, path ∈ a.openPaths (tokens.take p)
  blocked : ∀ path ∈ a.openPaths (tokens.take p), a.steps path.state symbol = []
  mem_iff : ∀ failure, failure ∈ failures ↔
    ∃ path ∈ a.openPaths (tokens.take p), ⟨a.expected path.state symbol, symbol⟩ = failure

/-- A match that fails for want of a way fails at the symbol at which it died. -/
theorem exists_failsAt_of_interpret {options : MatchOptions} {tokens : List String}
    {failures : OrderedSet Failure} (h : a.interpret options tokens = .error (.noMatch failures)) :
    ∃ p symbol, a.FailsAt tokens failures p symbol ∧
      ∃ paths, (a.interpretWithEvents options tokens).events.getLast? =
        some (.died p paths failures.size) := by
  obtain ⟨p, symbol, hsymbol, halive, hdead, rfl, hlast⟩ := exists_died_of_interpret h
  have hp : p ≤ tokens.length := by
    have hlt := (List.getElem?_eq_some_iff.mp hsymbol).1
    rw [Symbol.ofTokens, List.length_append, List.length_map, List.length_singleton] at hlt
    exact Nat.le_of_lt_succ hlt
  have hcrossing : a.crossing options (a.frontierAt options tokens p) symbol = [] := by
    rw [← hdead, frontierAt, frontierAt, List.take_add_one, hsymbol, crossings, crossings,
      List.foldl_append]
    rfl
  refine ⟨p, symbol, ⟨hsymbol, ?_, fun path hpath => ?_, fun failure => ?_⟩, _, hlast⟩
  · obtain ⟨path, hpath⟩ := List.exists_mem_of_ne_nil _ halive
    exact ⟨path, (mem_frontierAt_iff_mem_openPaths hp).mp hpath⟩
  · rw [List.eq_nil_iff_forall_not_mem]
    intro step hstep
    have hbefore : path ∈ a.frontierAt options tokens p :=
      (mem_frontierAt_iff_mem_openPaths hp).mpr hpath
    have hnext : a.follow symbol path step ∈
        a.crossing options (a.frontierAt options tokens p) symbol :=
      mem_crossing_iff.mpr ⟨path, hbefore, List.mem_map_of_mem hstep⟩
    rw [hcrossing] at hnext
    cases hnext
  · simp only [failuresAt, OrderedSet.mem_ofList, List.mem_map, mem_frontierAt_iff_mem_openPaths hp]

/-- A line that is not accepted fails for want of a way, under some options. -/
theorem exists_noMatch_of_not_accepts {tokens : List String} (h : a.accepts tokens = false) :
    ∃ options failures, a.interpret options tokens = .error (.noMatch failures) := by
  obtain ⟨bound, hbound⟩ := a.exists_limit_interpret tokens
  have hlimit := hbound ⟨bound, true⟩ (Nat.le_refl bound)
  refine ⟨⟨bound, true⟩, ?_⟩
  cases hresult : a.interpret ⟨bound, true⟩ tokens with
  | ok found =>
    rw [accepts_of_interpret_eq_ok hresult] at h
    cases h
  | error failure =>
    cases failure with
    | tooManyPaths limit position => exact absurd ⟨limit, position, hresult⟩ hlimit
    | noMatch failures => exact ⟨failures, rfl⟩

namespace FailsAt

variable {tokens : List String} {failures : OrderedSet Failure} {p : Nat}

theorem mem_expectations_iff (h : a.FailsAt tokens failures p symbol) {e : Expectation} :
    e ∈ MatchError.expectations failures ↔
      ∃ path ∈ a.openPaths (tokens.take p), e ∈ a.expected path.state symbol := by
  rw [MatchError.mem_expectations_iff]
  simp only [h.mem_iff, exists_exists_and_eq_and]

/-- A word or any token is expected exactly when some path can cross the word. -/
theorem word_or_any_iff (h : a.FailsAt tokens failures p symbol) {text : String} :
    (.label (.word text) ∈ MatchError.expectations failures ∨
        .label .any ∈ MatchError.expectations failures) ↔
      ∃ path ∈ a.openPaths (tokens.take p), a.steps path.state (.token text) ≠ [] := by
  simp only [h.mem_expectations_iff]
  constructor
  · rintro (⟨path, hpath, hexpected⟩ | ⟨path, hpath, hexpected⟩)
    · exact ⟨path, hpath, (exists_label_expected_iff (h.blocked path hpath)).mp
        ⟨_, hexpected, Label.accepts_token_iff.mpr (.inl rfl)⟩⟩
    · exact ⟨path, hpath, (exists_label_expected_iff (h.blocked path hpath)).mp
        ⟨_, hexpected, Label.accepts_token_iff.mpr (.inr rfl)⟩⟩
  · rintro ⟨path, hpath, hne⟩
    obtain ⟨label, hexpected, haccepts⟩ :=
      (exists_label_expected_iff (h.blocked path hpath)).mpr hne
    rcases Label.accepts_token_iff.mp haccepts with rfl | rfl
    · exact .inl ⟨path, hpath, hexpected⟩
    · exact .inr ⟨path, hpath, hexpected⟩

/-- The token that was received is not among those that are expected. -/
theorem not_expected_received {text : String} (h : a.FailsAt tokens failures p (.token text)) :
    .label (.word text) ∉ MatchError.expectations failures ∧
      .label .any ∉ MatchError.expectations failures := by
  rw [← not_or, h.word_or_any_iff]
  rintro ⟨path, hpath, hne⟩
  exact hne (h.blocked path hpath)

/-- The end of the line is expected exactly when a token was received after an accepted line. -/
theorem nothing_iff (h : a.FailsAt tokens failures p symbol) :
    .nothing ∈ MatchError.expectations failures ↔
      p < tokens.length ∧ a.accepts (tokens.take p) = true := by
  have hreceived : symbol ≠ .finish ↔ p < tokens.length := by
    rcases getElem?_ofTokens h.next with ⟨rfl, rfl⟩ | ⟨token, htoken, rfl⟩
    · simp
    · simp [(List.getElem?_eq_some_iff.mp htoken).1]
  rw [h.mem_expectations_iff, accepts_iff_exists_steps, ← hreceived]
  simp only [nothing_mem_expected_iff]
  constructor
  · rintro ⟨path, hpath, hne, hsteps⟩
    exact ⟨hne, path, hpath, hsteps⟩
  · rintro ⟨hne, path, hpath, hsteps⟩
    exact ⟨path, hpath, hne, hsteps⟩

/-- Where there are no dead ends, every failure expected something. -/
theorem exists_mem_of_mem_failures (h : a.FailsAt tokens failures p symbol)
    (hends : Coaccessible a.states) {failure : Failure} (hfailure : failure ∈ failures) :
    ∃ e, e ∈ failure.expected := by
  obtain ⟨path, hpath, rfl⟩ := (h.mem_iff failure).mp hfailure
  have hstart : a.start < a.size := a.nonempty
  exact exists_mem_expected (hends _ (state_lt_size_of_mem_pathsAlong hstart hpath))
    (h.blocked path hpath)

end FailsAt

end Automaton

namespace Grammar

/-- **What a failed match expected are exactly the acceptable continuations.**  A match of a line by
a grammar that fails for want of a way dies at some place of the line: the tokens before it begin a
line of the grammar, and every failure has received the symbol that stands there.  Of the
expectations of all failures together, a word, or any token, is among them exactly when the tokens
before the place, followed by the word, begin a line of the grammar; the end of the line exactly
when a token was received there and the tokens before it are a line by themselves.  A token that was
received is not expected, neither as a word nor as any token; nothing but words, any token and the
end of the line is ever expected; and no failure has expected nothing at all. -/
theorem expectations_are_continuations (grammar : Grammar) (options : MatchOptions)
    (tokens : List String) (failures : OrderedSet Failure)
    (h : grammar.automaton.interpret options tokens = .error (.noMatch failures)) :
    ∃ p symbol, (Symbol.ofTokens tokens)[p]? = some symbol ∧
      (∃ paths, (grammar.automaton.interpretWithEvents options tokens).events.getLast? =
        some (.died p paths failures.size)) ∧
      (∃ more, grammar.automaton.accepts (tokens.take p ++ more) = true) ∧
      (∀ failure ∈ failures, failure.received = symbol) ∧
      (∀ word, .label (.word word) ∈ MatchError.expectations failures ∨
          .label .any ∈ MatchError.expectations failures ↔
        ∃ more, grammar.automaton.accepts (tokens.take p ++ word :: more) = true) ∧
      (.nothing ∈ MatchError.expectations failures ↔
        p < tokens.length ∧ grammar.automaton.accepts (tokens.take p) = true) ∧
      (∀ text, symbol = .token text →
        .label (.word text) ∉ MatchError.expectations failures ∧
          .label .any ∉ MatchError.expectations failures) ∧
      (∀ e ∈ MatchError.expectations failures, e ≠ .finish ∧ e ≠ .free ∧ e ≠ .emit) ∧
      (∀ failure ∈ failures, ∃ e, e ∈ failure.expected) := by
  have hends := grammar.coaccessible_automaton
  obtain ⟨p, symbol, hfails, hdied⟩ := Automaton.exists_failsAt_of_interpret h
  refine ⟨p, symbol, hfails.next, hdied, (Automaton.viable_iff_exists_path hends).mpr hfails.alive,
    fun failure hfailure => ?_, fun word => ?_, hfails.nothing_iff, ?_, fun e he => ?_,
    fun failure hfailure => hfails.exists_mem_of_mem_failures hends hfailure⟩
  · obtain ⟨path, _, rfl⟩ := (hfails.mem_iff failure).mp hfailure
    rfl
  · rw [hfails.word_or_any_iff, ← Automaton.viable_snoc_iff hends, Automaton.Viable]
    simp only [List.append_assoc, List.singleton_append]
  · rintro text rfl
    exact hfails.not_expected_received
  · obtain ⟨path, _, hexpected⟩ := hfails.mem_expectations_iff.mp he
    rcases Automaton.eq_label_or_nothing_of_mem_expected hexpected with ⟨label, rfl⟩ | rfl
    · exact ⟨nofun, nofun, nofun⟩
    · exact ⟨nofun, nofun, nofun⟩

/-- The grammar `go (north|south)`. -/
def directions : Grammar :=
  sequence [keyword "go", alternatives [[keyword "north"], [keyword "south"]]]

theorem accepts_directions_iff {tokens : List String} :
    directions.automaton.accepts tokens = true ↔
      tokens = ["go", "north"] ∨ tokens = ["go", "south"] := by
  rw [← Automaton.mem_language_iff, language_automaton]
  constructor
  · rintro ⟨_, rfl, _, ⟨_, ⟨_, rfl, _, rfl, rfl⟩ | ⟨_, rfl, _, rfl, rfl⟩ | hnone, _, rfl, rfl⟩, rfl⟩
    · exact .inl rfl
    · exact .inr rfl
    · exact absurd hnone (Language.notMem_zero _)
  · rintro (rfl | rfl)
    · exact ⟨["go"], rfl, ["north"], ⟨["north"], .inl ⟨["north"], rfl, [], rfl, rfl⟩, [], rfl, rfl⟩,
        rfl⟩
    · exact ⟨["go"], rfl, ["south"],
        ⟨["south"], .inr (.inl ⟨["south"], rfl, [], rfl, rfl⟩), [], rfl, rfl⟩, rfl⟩

/-- After `go`, where `west` was received, `north` and `south` are expected, no other word is, and
neither is the end of the line. -/
theorem expectations_are_continuations_directions :
    ∃ options failures,
      directions.automaton.interpret options ["go", "west"] = .error (.noMatch failures) ∧
      (∀ word, .label (.word word) ∈ MatchError.expectations failures ↔
        word = "north" ∨ word = "south") ∧
      .nothing ∉ MatchError.expectations failures := by
  have hrefused : directions.automaton.accepts ["go", "west"] = false := by
    rw [← Bool.not_eq_true, accepts_directions_iff]
    decide
  obtain ⟨options, failures, h⟩ := Automaton.exists_noMatch_of_not_accepts hrefused
  obtain ⟨p, symbol, hsymbol, _, ⟨more, hviable⟩, _, hwords, hnothing, hreceived, _⟩ :=
    expectations_are_continuations directions options _ failures h
  simp only [accepts_directions_iff] at hviable hwords hnothing
  -- `go` begins a line, so it would be expected in its own place; `go west` begins none
  match p, hsymbol with
  | 0, hsymbol =>
    have hgo := (hwords "go").mpr ⟨["north"], .inl rfl⟩
    exact absurd hgo (not_or.mpr (hreceived "go" (Option.some.inj hsymbol).symm))
  | 2, _ => simp at hviable
  | p + 3, hsymbol => simp [Symbol.ofTokens] at hsymbol
  | 1, hsymbol =>
    obtain ⟨_, hany⟩ := hreceived "west" (Option.some.inj hsymbol).symm
    refine ⟨options, failures, h, fun word => ?_, ?_⟩
    · have hword := hwords word
      rw [or_iff_left hany] at hword
      rw [hword]
      simp [exists_or]
    · rw [hnothing]
      simp

end Grammar
end CommandGrammar
