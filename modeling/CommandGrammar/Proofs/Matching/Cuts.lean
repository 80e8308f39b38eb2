import CommandGrammar.Grammar.Parser
import CommandGrammar.Proofs.Matching.Backtracking
import CommandGrammar.Proofs.Matching.Readings

/-!
# A repeated capture

The grammar `(ITEM)+` reads a line in every way in which it can be cut into spans.  Its automaton has
one state in which tokens have been read: there the next token goes on with the last span, or the
last span is claimed and the token begins a new one.  So the paths after some tokens are the cuts of
these tokens (`Cut`), each on a stack of its own, and every path has two successors.

* `Cut.mem_ofTokens_iff`, `Cut.length_ofTokens`, `Cut.nodup_ofTokens`: taking the two ways at every
  token lists all cuts, twice as many with each token, and none of them twice.
* `frontierAt_items`: the frontier after some tokens is this list.  Merging finds nothing to merge.
* `repeated_capture_cuts`: the readings of a line are its cuts, unless they are too many.
-/

namespace CommandGrammar

/-! ## Cuts -/

/-- Tokens cut into spans, none of them empty: the spans that are done, and the last one. -/
@[ext] structure Cut where
  done : List (List String)
  last : List String
  nonempty : [] ∉ done ++ [last]

namespace Cut

/-- All spans of a cut. -/
def spans (cut : Cut) : List (List String) := cut.done ++ [cut.last]

/-- The cut of a single token. -/
def single (text : String) : Cut := ⟨[], [text], by simp⟩

/-- The token goes on with the last span. -/
def extend (text : String) (cut : Cut) : Cut where
  done := cut.done
  last := cut.last ++ [text]
  nonempty := by simpa using fun h => cut.nonempty (List.mem_append_left _ h)

/-- The token begins a span of its own. -/
def startSpan (text : String) (cut : Cut) : Cut where
  done := cut.spans
  last := [text]
  nonempty := by simpa [spans] using cut.nonempty

/-- The cuts that follow a cut by one token. -/
def fork (text : String) (cut : Cut) : List Cut := [cut.extend text, cut.startSpan text]

/-- The cuts of a line, in the order in which they are found. -/
def ofTokens (first : String) (rest : List String) : List Cut :=
  rest.foldl (fun cuts text => cuts.flatMap (fork text)) [single first]

theorem last_ne_nil (cut : Cut) : cut.last ≠ [] := by
  intro h
  exact cut.nonempty (List.mem_append_right _ (List.mem_singleton.mpr h.symm))

theorem spans_injective : Function.Injective spans := by
  intro cut other h
  obtain ⟨hdone, hlast⟩ := List.append_inj' h rfl
  exact Cut.ext hdone (List.singleton_inj.mp hlast)

theorem extend_ne_startSpan {text : String} {cut other : Cut} :
    cut.extend text ≠ other.startSpan text := by
  intro h
  have hlast : cut.last ++ [text] = [] ++ [text] := congrArg last h
  exact cut.last_ne_nil (List.append_cancel_right hlast)

theorem nodup_fork (text : String) (cut : Cut) : (cut.fork text).Nodup := by
  simpa [fork] using extend_ne_startSpan

/-- A cut follows no more than one cut by the same token. -/
theorem eq_of_mem_fork {text : String} {cut other after : Cut} (h : after ∈ cut.fork text)
    (h' : after ∈ other.fork text) : cut = other := by
  simp only [fork, List.mem_cons, List.not_mem_nil, or_false] at h h'
  rcases h with rfl | rfl
  · rcases h' with heq | heq
    · obtain ⟨hdone, hlast⟩ := Cut.ext_iff.mp heq
      exact Cut.ext hdone (List.append_cancel_right hlast)
    · exact absurd heq extend_ne_startSpan
  · rcases h' with heq | heq
    · exact absurd heq.symm extend_ne_startSpan
    · exact spans_injective (congrArg done heq)

theorem flatten_spans_of_mem_fork {text : String} {cut after : Cut} (h : after ∈ cut.fork text) :
    after.spans.flatten = cut.spans.flatten ++ [text] := by
  simp only [fork, List.mem_cons, List.not_mem_nil, or_false] at h
  rcases h with rfl | rfl
  · simp [spans, extend]
  · simp [spans, startSpan]

/-- A cut whose last token is taken away is a cut of the tokens before it, if there are any. -/
theorem exists_mem_fork {cut : Cut} {front : List String} {text : String}
    (h : cut.spans.flatten = front ++ [text]) :
    (front = [] ∧ cut = single text) ∨
      ∃ before : Cut, before.spans.flatten = front ∧ cut ∈ before.fork text := by
  obtain ⟨init, final, hlast⟩ := List.eq_nil_or_concat' cut.last |>.resolve_left cut.last_ne_nil
  rw [spans, hlast, List.flatten_append, List.flatten_singleton, ← List.append_assoc] at h
  obtain ⟨hfront, hfinal⟩ := List.append_inj' h rfl
  obtain rfl : final = text := List.singleton_inj.mp hfinal
  have hdone : [] ∉ cut.done := fun hmem => cut.nonempty (List.mem_append_left _ hmem)
  by_cases hinit : init = []
  · -- the last token is a span of its own, so the span before it was the last one
    rw [hinit, List.nil_append] at hlast
    rw [hinit, List.append_nil] at hfront
    rcases List.eq_nil_or_concat' cut.done with hnone | ⟨done, last, hspans⟩
    · rw [hnone] at hfront
      exact .inl ⟨hfront.symm, Cut.ext hnone hlast⟩
    · refine .inr ⟨⟨done, last, hspans ▸ hdone⟩, ?_, ?_⟩
      · rw [spans, ← hspans, hfront]
      · exact List.mem_cons_of_mem _ (List.mem_singleton.mpr (Cut.ext hspans hlast))
  · refine .inr ⟨⟨cut.done, init, by simpa [hdone] using Ne.symm hinit⟩, ?_, ?_⟩
    · rw [spans, List.flatten_append, List.flatten_singleton, hfront]
    · exact List.mem_cons.mpr (.inl (Cut.ext rfl hlast))

/-! ## The cuts of a line -/

theorem ofTokens_append_singleton (first : String) (rest : List String) (text : String) :
    ofTokens first (rest ++ [text]) = (ofTokens first rest).flatMap (fork text) := by
  rw [ofTokens, List.foldl_append]
  rfl

/-- The cuts of a line are all those that are listed. -/
theorem mem_ofTokens_iff {first : String} {rest : List String} {cut : Cut} :
    cut ∈ ofTokens first rest ↔ cut.spans.flatten = first :: rest := by
  induction rest using List.reverseRecOn generalizing cut with
  | nil =>
    constructor
    · intro h
      rw [List.mem_singleton.mp h]
      rfl
    · intro h
      have hsplit : cut.spans.flatten = [] ++ [first] := h
      rcases exists_mem_fork hsplit with ⟨_, rfl⟩ | ⟨before, hbefore, _⟩
      · exact List.mem_singleton_self _
      · have hempty : before.last = [] := (List.flatten_eq_nil_iff.mp hbefore) _ (by simp [spans])
        exact absurd hempty before.last_ne_nil
  | append_singleton rest text ih =>
    rw [ofTokens_append_singleton, List.mem_flatMap, ← List.cons_append]
    constructor
    · rintro ⟨before, hbefore, hcut⟩
      rw [flatten_spans_of_mem_fork hcut, ih.mp hbefore]
    · intro h
      rcases exists_mem_fork h with ⟨hnone, _⟩ | ⟨before, hbefore, hcut⟩
      · cases hnone
      · exact ⟨before, ih.mpr hbefore, hcut⟩

/-- Every token after the first doubles the number of cuts. -/
theorem length_ofTokens (first : String) (rest : List String) :
    (ofTokens first rest).length = 2 ^ rest.length := by
  induction rest using List.reverseRecOn with
  | nil => rfl
  | append_singleton rest text ih =>
    have hfork : ∀ cut : Cut, (cut.fork text).length = 2 := fun _ => rfl
    rw [ofTokens_append_singleton, List.length_flatMap, List.length_append, List.length_singleton,
      Nat.pow_succ, ← ih]
    simp [hfork]

theorem nodup_ofTokens (first : String) (rest : List String) : (ofTokens first rest).Nodup := by
  induction rest using List.reverseRecOn with
  | nil => exact List.nodup_singleton _
  | append_singleton rest text ih =>
    rw [ofTokens_append_singleton, List.nodup_flatMap]
    refine ⟨fun cut _ => nodup_fork text cut, ih.imp fun hne after h h' => ?_⟩
    exact hne (eq_of_mem_fork h h')

/-- The lists of spans of the cuts of a line are all those that make up the line. -/
theorem mem_map_spans_ofTokens_iff {first : String} {rest : List String}
    {spans : List (List String)} :
    spans ∈ (ofTokens first rest).map Cut.spans ↔ spans.flatten = first :: rest ∧ [] ∉ spans := by
  rw [List.mem_map]
  constructor
  · rintro ⟨cut, hcut, rfl⟩
    exact ⟨mem_ofTokens_iff.mp hcut, cut.nonempty⟩
  · rintro ⟨hflatten, hnonempty⟩
    rcases List.eq_nil_or_concat' spans with rfl | ⟨done, last, rfl⟩
    · cases hflatten
    · exact ⟨⟨done, last, hnonempty⟩, mem_ofTokens_iff.mpr hflatten, rfl⟩

/-! ## The paths of a cut -/

/-- A span as a claim. -/
def item (span : List String) : Entry := .claim ⟨.capture ["ITEM"], span⟩

/-- The path that has read the tokens of a cut: its last span is not claimed yet. -/
def path (cut : Cut) : Path := ⟨1, (cut.done.map item ++ cut.last.map Entry.token).reverse⟩

/-- The path of a cut at the end of the line. -/
def final (cut : Cut) : Path := ⟨4, (cut.spans.map item).reverse⟩

/-- Completing the rule claims the last span. -/
theorem complete_path (cut : Cut) :
    cut.path.stack.complete (.capture ["ITEM"]) = (cut.spans.map item).reverse := by
  have hclaimed : ∀ entry ∈ (cut.done.map item).reverse, entry.IsClaimed := by
    intro entry hentry
    obtain ⟨span, hspan, rfl⟩ := List.mem_map.mp (List.mem_reverse.mp hentry)
    rintro rfl
    exact cut.nonempty (List.mem_append_left _ hspan)
  rw [path, List.reverse_append, ← List.map_reverse, Stack.complete, Stack.claimOnto_append,
    List.reverse_reverse, List.append_nil, Stack.claimOnto_of_isClaimed hclaimed, spans,
    List.map_append, List.reverse_append]
  rfl

theorem map_item_spans_injective : Function.Injective fun cut : Cut => cut.spans.map item := by
  have hitem : Function.Injective item := fun span other h => by
    cases h
    rfl
  exact (List.map_injective_iff.mpr hitem).comp spans_injective

theorem final_injective : Function.Injective final := by
  intro cut other h
  exact map_item_spans_injective (List.reverse_injective (congrArg Path.stack h))

/-- Different cuts have different stacks, because their claims at the end would differ. -/
theorem path_injective : Function.Injective path := by
  intro cut other h
  have hclaims := congrArg (fun path => path.stack.complete (.capture ["ITEM"])) h
  simp only [complete_path] at hclaims
  exact map_item_spans_injective (List.reverse_injective hclaims)

end Cut

namespace Automaton

/-! ## The automaton of a repeated capture -/

section

variable {a : Automaton}

/-- No step ends where free transitions lead on. -/
theorem taken_of_onward_ne_nil {visit : Visit} (h : a.onward visit ≠ []) (symbol : Symbol) :
    a.taken symbol visit = [] := by
  cases hstate : a.state? visit.state with
  | none => simp [taken, hstate]
  | some state =>
    cases state with
    | halt => simp [onward, hstate] at h
    | consume transitions => simp [onward, hstate] at h
    | free next => simp [taken, hstate]
    | emit rule next =>
      cases next with
      | nil => simp [onward, hstate] at h
      | cons => simp [taken, hstate]

/-- A state that consumes any token has one way across it. -/
theorem taken_of_single_any {q s : Nat} (h : a.state? q = some (.consume (.single .any s)))
    (text : String) (emits : List Nat) : a.taken (.token text) ⟨q, emits⟩ = [⟨emits, s⟩] := by
  rw [taken, h]
  rfl

end

/-- The grammar `(ITEM)+`. -/
def items : Grammar := .sequence [.quantified .plus (.sequence [.capture ["ITEM"]])]

theorem parse_items : Grammar.parse "(ITEM)+" = .ok items := by decide +kernel

theorem state?_items_zero : items.automaton.state? 0 = some (.consume (.single .any 1)) := by
  decide +kernel

theorem steps_items_zero (text : String) : items.automaton.steps 0 (.token text) = [⟨[], 1⟩] := by
  rw [steps_of_onward_eq_nil (by decide +kernel), taken_of_single_any state?_items_zero]

/-- From the state in which tokens have been read, a step consumes the symbol and the span goes on,
or it claims the span, and then it consumes the symbol or ends. -/
theorem steps_items_one (symbol : Symbol) : items.automaton.steps 1 symbol =
    items.automaton.taken symbol ⟨0, []⟩ ++ (items.automaton.taken symbol ⟨0, [3]⟩ ++
      items.automaton.taken symbol ⟨4, [3]⟩) := by
  have hread : items.automaton.onward ⟨1, []⟩ = [⟨0, []⟩, ⟨2, []⟩] := by decide +kernel
  have hsame : items.automaton.onward ⟨0, []⟩ = [] := by decide +kernel
  have hleave : items.automaton.onward ⟨2, []⟩ = [⟨3, []⟩] := by decide +kernel
  have hclaim : items.automaton.onward ⟨3, []⟩ = [⟨0, [3]⟩, ⟨4, [3]⟩] := by decide +kernel
  have hnext : items.automaton.onward ⟨0, [3]⟩ = [] := by decide +kernel
  have hend : items.automaton.onward ⟨4, [3]⟩ = [] := by decide +kernel
  have hone := taken_of_onward_ne_nil (hread ▸ List.cons_ne_nil _ _) symbol
  have htwo := taken_of_onward_ne_nil (hleave ▸ List.cons_ne_nil _ _) symbol
  have hthree := taken_of_onward_ne_nil (hclaim ▸ List.cons_ne_nil _ _) symbol
  unfold steps Search.exploreFrom
  simp only [Search.explore_cons_of_fresh, hread, hsame, hleave, hclaim, hnext, hend, hone, htwo,
    hthree, Search.contains_insert_eq_false_iff, Std.HashSet.contains_empty, Search.explore_nil,
    List.nil_append, List.append_nil, ne_eq, Visit.mk.injEq, reduceCtorEq, and_false,
    not_false_eq_true, and_self, Nat.reduceEqDiff, false_and]

theorem steps_items_token (text : String) :
    items.automaton.steps 1 (.token text) = [⟨[], 1⟩, ⟨[3], 1⟩] := by
  have hend : items.automaton.taken (.token text) ⟨4, [3]⟩ = [] := by
    have hstate : items.automaton.state? 4 = some .halt := by decide +kernel
    simp [taken, hstate]
  rw [steps_items_one, taken_of_single_any state?_items_zero, taken_of_single_any state?_items_zero,
    hend]
  rfl

theorem steps_items_finish : items.automaton.steps 1 .finish = [⟨[3], 4⟩] := by
  rw [steps_items_one]
  decide +kernel

/-! ## The frontier -/

theorem state?_items_three :
    items.automaton.state? 3 = some (.emit (.capture ["ITEM"]) [0, 4]) := by decide +kernel

theorem completeAll_path (cut : Cut) :
    items.automaton.completeAll cut.path.stack [3] = (cut.spans.map Cut.item).reverse := by
  simp only [completeAll, List.foldl_cons, List.foldl_nil, state?_items_three, Cut.complete_path]

/-- A path goes on in two ways across a token. -/
theorem pathsAfter_path_token (text : String) (cut : Cut) :
    items.automaton.pathsAfter (.token text) cut.path = (cut.fork text).map Cut.path := by
  have hextend : items.automaton.follow (.token text) cut.path ⟨[], 1⟩ =
      (cut.extend text).path := by
    simp [follow, completeAll, Stack.push, Cut.path, Cut.extend]
  have hstart : items.automaton.follow (.token text) cut.path ⟨[3], 1⟩ =
      (cut.startSpan text).path := by
    rw [follow, completeAll_path]
    simp [Stack.push, Cut.path, Cut.startSpan]
  show (items.automaton.steps 1 (.token text)).map _ = _
  rw [steps_items_token, List.map_cons, List.map_singleton, hextend, hstart]
  rfl

/-- A path goes on in one way across the end mark. -/
theorem pathsAfter_path_finish (cut : Cut) :
    items.automaton.pathsAfter .finish cut.path = [cut.final] := by
  show (items.automaton.steps 1 .finish).map _ = _
  rw [steps_items_finish, List.map_singleton, follow, completeAll_path]
  rfl

variable {options : MatchOptions}

/-- A frontier of cuts is taken across a token as a whole: there is nothing to merge. -/
theorem crossing_map_path_token {cuts : List Cut} {text : String}
    (h : (cuts.flatMap (Cut.fork text)).Nodup) :
    items.automaton.crossing options (cuts.map Cut.path) (.token text) =
      (cuts.flatMap (Cut.fork text)).map Cut.path := by
  have hpaths : (cuts.map Cut.path).flatMap (items.automaton.pathsAfter (.token text)) =
      (cuts.flatMap (Cut.fork text)).map Cut.path := by
    rw [List.flatMap_map, List.map_flatMap]
    congr 1
    funext cut
    exact pathsAfter_path_token text cut
  rw [crossing, hpaths, MatchOptions.kept_of_nodup (h.map Cut.path_injective)]

theorem crossing_map_path_finish {cuts : List Cut} (h : cuts.Nodup) :
    items.automaton.crossing options (cuts.map Cut.path) .finish = cuts.map Cut.final := by
  have hpaths : (cuts.map Cut.path).flatMap (items.automaton.pathsAfter .finish) =
      cuts.map Cut.final := by
    rw [List.flatMap_map, List.map_eq_flatMap]
    congr 1
    funext cut
    exact pathsAfter_path_finish cut
  rw [crossing, hpaths, MatchOptions.kept_of_nodup (h.map Cut.final_injective)]

/-- The paths after the first token and some more are the cuts of these tokens. -/
theorem frontierAt_items {first : String} {rest : List String} {p : Nat} (hp : p ≤ rest.length) :
    items.automaton.frontierAt options (first :: rest) (p + 1) =
      (Cut.ofTokens first (rest.take p)).map Cut.path := by
  induction p with
  | zero =>
    have hfirst : items.automaton.pathsAfter (.token first) ⟨items.automaton.start, []⟩ =
        [(Cut.single first).path] := by
      show (items.automaton.steps 0 (.token first)).map _ = _
      rw [steps_items_zero]
      rfl
    rw [frontierAt_succ (getElem?_ofTokens_of_lt (Nat.succ_pos _)), frontierAt_zero, crossing,
      List.flatMap_singleton]
    show options.kept (items.automaton.pathsAfter (.token first) _) = _
    rw [hfirst, MatchOptions.kept_of_nodup (List.nodup_singleton _)]
    rfl
  | succ p ih =>
    have hlt : p < rest.length := hp
    have hnodup := Cut.nodup_ofTokens first (rest.take p ++ [rest[p]])
    rw [Cut.ofTokens_append_singleton] at hnodup
    rw [frontierAt_succ (getElem?_ofTokens_of_lt (Nat.succ_lt_succ hlt)), ih (Nat.le_of_lt hlt),
      List.getElem_cons_succ, crossing_map_path_token hnodup, ← Cut.ofTokens_append_singleton,
      List.take_succ_eq_append_getElem hlt]

theorem frontierAt_items_finish (first : String) (rest : List String) :
    items.automaton.frontierAt options (first :: rest) ((first :: rest).length + 1) =
      (Cut.ofTokens first rest).map Cut.final := by
  rw [frontierAt_succ (getElem?_ofTokens_length _), List.length_cons, frontierAt_items (Nat.le_refl _),
    List.take_length, crossing_map_path_finish (Cut.nodup_ofTokens first rest)]

/-- The frontier doubles with every token after the first, and stays as it is at the end mark. -/
theorem length_frontierAt_items {first : String} {rest : List String} {p : Nat}
    (hp : p ≤ (first :: rest).length) :
    (items.automaton.frontierAt options (first :: rest) (p + 1)).length =
      2 ^ min p rest.length := by
  rcases Nat.lt_or_eq_of_le hp with hlt | rfl
  · have hle : p ≤ rest.length := Nat.le_of_lt_succ hlt
    rw [frontierAt_items hle, List.length_map, Cut.length_ofTokens, List.length_take]
  · rw [frontierAt_items_finish, List.length_map, Cut.length_ofTokens, List.length_cons,
      Nat.min_eq_right (Nat.le_succ _)]

/-- With a limit that admits all cuts of a line, its readings are its cuts. -/
theorem interpret_items {first : String} {rest : List String}
    (h : 2 ^ rest.length ≤ options.limit) :
    items.automaton.interpret options (first :: rest) =
      .ok ((Cut.ofTokens first rest).map fun cut => ⟨cut.spans.map Cut.item⟩) := by
  have hwithin : ¬ Flooded (items.automaton.interpret options (first :: rest)) := by
    refine not_flooded_interpret_iff.mpr fun p hp => ?_
    rw [length_frontierAt_items hp]
    exact Nat.le_trans (Nat.pow_le_pow_right (by decide) (Nat.min_le_right ..)) h
  have hlast : items.automaton.crossings options [⟨items.automaton.start, []⟩]
      (Symbol.ofTokens (first :: rest)) = (Cut.ofTokens first rest).map Cut.final := by
    rw [← frontierAt_items_finish, frontierAt, List.take_of_length_le]
    rw [Symbol.ofTokens, List.length_append, List.length_map, List.length_singleton]
  have halive : (Cut.ofTokens first rest).map Cut.final ≠ [] := by
    rw [Ne, List.map_eq_nil_iff, ← List.length_eq_zero_iff, Cut.length_ofTokens]
    exact Nat.pos_iff_ne_zero.mp (Nat.two_pow_pos _)
  rw [interpret_eq_unlimited hwithin, unlimited, unlimitedFrom_eq_ok (hlast ▸ halive), hlast,
    List.map_map]
  simp only [Function.comp_def, Cut.final, Stack.reading, List.reverse_reverse]

/-- With a smaller limit the match is given up at the first token that doubles the frontier beyond
it. -/
theorem interpret_items_of_limit_lt {first : String} {rest : List String} {p : Nat}
    (h : options.limit < 2 ^ rest.length) (hp : IsLeast {p | options.limit < 2 ^ p} p) :
    items.automaton.interpret options (first :: rest) =
      .error (.tooManyPaths options.limit p) := by
  have hle : p ≤ rest.length := hp.2 h
  refine interpret_eq_tooManyPaths_iff.mpr ⟨rfl, mem_floodings_ofTokens_iff.mpr ⟨?_, ?_⟩, ?_⟩
  · exact Nat.le_succ_of_le hle
  · rw [length_frontierAt_items (Nat.le_succ_of_le hle), Nat.min_eq_left hle]
    exact hp.1
  · intro q hq
    obtain ⟨hq, hflooded⟩ := mem_floodings_ofTokens_iff.mp hq
    rw [length_frontierAt_items hq] at hflooded
    exact Nat.le_trans (hp.2 hflooded) (Nat.min_le_left ..)

/-- **A repeated capture is read in every way in which the line can be cut.**  Whether or not
duplicates are merged, the readings of a line of `n` tokens in the grammar `(ITEM)+` are the ways to
cut the line into spans that are not empty, each of them once, which makes `2 ^ (n - 1)`, if the
limit admits so many; otherwise the match is given up at the least `p` for which `2 ^ p` is beyond
the limit. -/
theorem repeated_capture_cuts :
    ∃ grammar, Grammar.parse "(ITEM)+" = .ok grammar ∧
      ∀ (tokens : List String) (options : MatchOptions), tokens ≠ [] →
        (2 ^ (tokens.length - 1) ≤ max 1 options.maxLivePaths →
          ∃ cuts : List (List (List String)), cuts.Nodup ∧ cuts.length = 2 ^ (tokens.length - 1) ∧
            (∀ spans, spans ∈ cuts ↔ spans.flatten = tokens ∧ [] ∉ spans) ∧
            ∃ found, grammar.automaton.interpret options tokens = .ok found ∧ found.Nodup ∧
              found = cuts.map fun spans =>
                ⟨spans.map fun span => .claim ⟨.capture ["ITEM"], span⟩⟩) ∧
        (max 1 options.maxLivePaths < 2 ^ (tokens.length - 1) →
          ∃ p, IsLeast {p | max 1 options.maxLivePaths < 2 ^ p} p ∧
            grammar.automaton.interpret options tokens =
              .error (.tooManyPaths (max 1 options.maxLivePaths) p)) := by
  refine ⟨items, parse_items, fun tokens options hne => ?_⟩
  obtain ⟨first, rest, rfl⟩ := List.exists_cons_of_ne_nil hne
  refine ⟨fun hfits => ?_, fun hlimit => ?_⟩
  · have hnodup := Cut.nodup_ofTokens first rest
    refine ⟨(Cut.ofTokens first rest).map Cut.spans, hnodup.map Cut.spans_injective, ?_,
      fun spans => Cut.mem_map_spans_ofTokens_iff, _, interpret_items hfits, ?_, ?_⟩
    · rw [List.length_map, Cut.length_ofTokens]
      rfl
    · refine hnodup.map fun cut other h => ?_
      exact Cut.map_item_spans_injective (Interpretation.mk.inj h)
    · rw [List.map_map]
      rfl
  · have hbeyond : ∃ p, options.limit < 2 ^ p := ⟨rest.length, hlimit⟩
    have hleast : IsLeast {p | options.limit < 2 ^ p} (Nat.find hbeyond) :=
      ⟨Nat.find_spec hbeyond, fun q hq => Nat.find_min' hbeyond hq⟩
    exact ⟨_, hleast, interpret_items_of_limit_lt hlimit hleast⟩

/-- Three tokens have four readings; a limit of three stops their match at the last of them. -/
theorem repeated_capture_cuts_three :
    ∃ grammar, Grammar.parse "(ITEM)+" = .ok grammar ∧
      (∃ found, grammar.automaton.interpret ⟨4, true⟩ ["a", "b", "c"] = .ok found ∧
        found.length = 4 ∧
        ⟨[.claim ⟨.capture ["ITEM"], ["a", "b"]⟩, .claim ⟨.capture ["ITEM"], ["c"]⟩]⟩ ∈ found) ∧
      grammar.automaton.interpret ⟨3, false⟩ ["a", "b", "c"] = .error (.tooManyPaths 3 2) := by
  obtain ⟨grammar, hparse, hmatch⟩ := repeated_capture_cuts
  refine ⟨grammar, hparse, ?_, ?_⟩
  · obtain ⟨cuts, _, hlength, hmem, found, hfound, _, rfl⟩ :=
      (hmatch ["a", "b", "c"] ⟨4, true⟩ (List.cons_ne_nil _ _)).1 (by decide)
    refine ⟨_, hfound, ?_, List.mem_map.mpr ⟨[["a", "b"], ["c"]], (hmem _).mpr ?_, rfl⟩⟩
    · rw [List.length_map, hlength]
      rfl
    · decide
  · obtain ⟨p, hp, hresult⟩ :=
      (hmatch ["a", "b", "c"] ⟨3, false⟩ (List.cons_ne_nil _ _)).2 (by decide)
    have htwo : IsLeast {p | max 1 3 < 2 ^ p} 2 := by
      refine ⟨by decide, fun q hq => ?_⟩
      by_contra hlt
      have hsmall : 2 ^ q ≤ 2 ^ 1 := Nat.pow_le_pow_right (by decide) (by omega)
      have hbeyond : 3 < 2 ^ q := hq
      omega
    rw [hresult, hp.unique htwo]
    rfl

end Automaton

end CommandGrammar
