import CommandGrammar.Grammar.Automaton
import CommandGrammar.Interpretation
import CommandGrammar.Proofs.Automaton.Operations

/-!
# The meaning of a grammar

A grammar says two things about a line: whether it is one of its lines at all, and how it may be
read.  `Grammar.language` and `Grammar.readings` are these two meanings.  Both are denotations and
differ in their leaves only: a keyword is a line of one token and is read as a claim on it, a
capture is any line that is not empty and is read as one claim on all of it.

The automaton of a grammar knows nothing of entries; it reads tokens and emits rules.  A claim is
what it does when it reads the claimed tokens and then emits the rule (`Entry.actions`), and
`Grammar.traces_automaton` says that the traces of the automaton are the readings of the grammar,
so spelled.  The proof follows the tree, one operation on automata at each node.
-/

namespace CommandGrammar

open scoped Computability

/-! ## Tokens and actions -/

/-- The tokens that an action reads. -/
def Action.tokens : Action → List String
  | .read token => [token]
  | .emit _ => []

namespace Entry

/-- The tokens that an entry stands for. -/
def tokens : Entry → List String
  | .token text => [text]
  | .claim made => made.tokens

/-- What an automaton does to make an entry. -/
def actions : Entry → List Action
  | .token text => [.read text]
  | .claim made => made.tokens.map .read ++ [.emit made.rule]

theorem flatMap_tokens_map_read (l : List String) :
    (l.map Action.read).flatMap Action.tokens = l := by
  induction l with
  | nil => rfl
  | cons first rest ih => rw [List.map_cons, List.flatMap_cons, ih]; rfl

/-- An entry is made of the tokens that it stands for. -/
theorem flatMap_tokens_actions (entry : Entry) :
    entry.actions.flatMap Action.tokens = entry.tokens := by
  cases entry with
  | token text => rfl
  | claim made =>
    rw [actions, List.flatMap_append, flatMap_tokens_map_read]
    exact List.append_nil _

theorem flatMap_tokens_flatMap_actions (entries : List Entry) :
    (entries.flatMap actions).flatMap Action.tokens = entries.flatMap tokens := by
  rw [List.flatMap_assoc]
  congr 1
  exact funext flatMap_tokens_actions

end Entry

/-! ## The two meanings -/

namespace Rule

/-- The lines of a leaf. -/
def language : Rule → Language String
  | .keyword word => {[word]}
  | .capture _ => {tokens | tokens ≠ []}

/-- The readings of a leaf. -/
def readings : Rule → Language Entry
  | .keyword word => {[.claim ⟨.keyword word, [word]⟩]}
  | .capture tags => {entries | ∃ tokens ≠ [], entries = [.claim ⟨.capture tags, tokens⟩]}

theorem respell_tokens_readings (rule : Rule) :
    respell Entry.tokens rule.readings = rule.language := by
  ext line
  cases rule with
  | keyword word =>
    constructor
    · rintro ⟨_, rfl, rfl⟩
      rfl
    · rintro rfl
      exact ⟨_, rfl, rfl⟩
  | capture tags =>
    constructor
    · rintro ⟨_, ⟨tokens, hne, rfl⟩, rfl⟩
      rw [List.flatMap_singleton]
      exact hne
    · intro hne
      exact ⟨_, ⟨line, hne, rfl⟩, List.flatMap_singleton ..⟩

end Rule

namespace Grammar

/-- The lines of a grammar. -/
def language (grammar : Grammar) : Language String := grammar.denote Rule.language

/-- The readings of a grammar. -/
def readings (grammar : Grammar) : Language Entry := grammar.denote Rule.readings

/-- The lines of a grammar are those that have a reading. -/
theorem respell_tokens_readings (grammar : Grammar) :
    respell Entry.tokens grammar.readings = grammar.language := by
  rw [readings, respell_denote, language, funext Rule.respell_tokens_readings]

end Grammar

/-! ## The traces of a leaf -/

/-- Tokens that any label accepts are read one after the other, as many as one likes. -/
theorem Label.mem_kstar_reads_any {w : List Action} :
    w ∈ any.reads∗ ↔ ∃ tokens : List String, w = tokens.map .read := by
  constructor
  · rintro ⟨blocks, rfl, hblocks⟩
    induction blocks with
    | nil => exact ⟨[], rfl⟩
    | cons first rest ih =>
      obtain ⟨text, _, rfl⟩ := hblocks _ List.mem_cons_self
      obtain ⟨tokens, htokens⟩ := ih fun y hy => hblocks y (List.mem_cons_of_mem _ hy)
      exact ⟨text :: tokens, by rw [List.flatten_cons, htokens]; rfl⟩
  · rintro ⟨tokens, rfl⟩
    refine ⟨tokens.map fun text => [.read text], ?_, ?_⟩
    · induction tokens with
      | nil => rfl
      | cons text rest ih => rw [List.map_cons, List.map_cons, List.flatten_cons, ← ih]; rfl
    · intro y hy
      obtain ⟨text, _, rfl⟩ := List.mem_map.mp hy
      exact ⟨text, rfl, rfl⟩

/-- What an automaton does to make the readings of a leaf. -/
def Rule.traces (rule : Rule) : Language Action := respell Entry.actions rule.readings

theorem Rule.traces_build {rule : Rule} {a : Automaton} (h : rule.build = .ok a) :
    Automaton.traces a.states = rule.traces := by
  cases rule with
  | keyword word =>
    rw [Automaton.traces_emitting (Automaton.sound_consuming _) h, Automaton.traces_consuming]
    ext w
    constructor
    · rintro ⟨_, ⟨text, haccepts, rfl⟩, _, rfl, rfl⟩
      obtain rfl : word = text := by simpa using haccepts
      exact ⟨_, rfl, rfl⟩
    · rintro ⟨_, rfl, rfl⟩
      exact ⟨_, ⟨word, by simp, rfl⟩, _, rfl, rfl⟩
  | capture tags =>
    obtain ⟨run, hplus, hsound⟩ := Automaton.exists_plus (Automaton.sound_consuming .any)
    have hemit : run.emitting (.capture tags) = .ok a := by
      simpa [Rule.build, hplus, bind, Except.bind] using h
    rw [Automaton.traces_emitting hsound hemit,
      Automaton.traces_plus (Automaton.sound_consuming .any) hplus, Automaton.traces_consuming]
    ext w
    constructor
    · rintro ⟨_, ⟨_, ⟨text, _, rfl⟩, _, hmore, rfl⟩, _, rfl, rfl⟩
      obtain ⟨tokens, rfl⟩ := Label.mem_kstar_reads_any.mp hmore
      exact ⟨_, ⟨text :: tokens, List.cons_ne_nil _ _, rfl⟩, List.flatMap_singleton ..⟩
    · rintro ⟨_, ⟨tokens, hne, rfl⟩, rfl⟩
      cases tokens with
      | nil => exact absurd rfl hne
      | cons text rest =>
        rw [List.flatMap_singleton]
        exact ⟨_, ⟨_, ⟨text, rfl, rfl⟩, _, Label.mem_kstar_reads_any.mpr ⟨rest, rfl⟩, rfl⟩, _, rfl,
          rfl⟩

/-! ## The traces of a grammar -/

namespace Grammar

mutual

/-- The automaton that is built for a grammar has the traces that the grammar denotes. -/
theorem traces_build : (grammar : Grammar) → {a : Automaton} → grammar.build = .ok a →
    Automaton.traces a.states = grammar.denote Rule.traces
  | .leaf rule, a, h => by
    rw [denote]
    exact Rule.traces_build h
  | .sequence children, a, h => by
    obtain ⟨parts, hall, hsound⟩ := exists_buildAll children
    have hconcat : Automaton.concat parts = .ok a := by
      simpa [build, hall, bind, Except.bind] using h
    rw [Automaton.traces_concat hsound hconcat, traces_buildAll children hall, denote]
  | .alternatives branches, a, h => by
    obtain ⟨parts, hall, hsound⟩ := exists_buildBranches branches
    have hunion : Automaton.union parts = .ok a := by
      simpa [build, hall, bind, Except.bind] using h
    rw [Automaton.traces_union hsound hunion, traces_buildBranches branches hall, denote]
  | .quantified quantifier inner, a, h => by
    obtain ⟨part, hbuilt, hsound⟩ := exists_build inner
    have hquantify : Automaton.quantify quantifier part = .ok a := by
      simpa [build, hbuilt, bind, Except.bind] using h
    rw [Automaton.traces_quantify hsound hquantify, traces_build inner hbuilt, denote]

/-- The automata of a sequence have, one after the other, the traces that the sequence denotes. -/
theorem traces_buildAll : (children : List Grammar) → {parts : List Automaton} →
    buildAll children = .ok parts →
    (parts.map fun part => Automaton.traces part.states).prod = denoteAll Rule.traces children
  | [], parts, h => by
    cases h
    rw [denoteAll, List.map_nil, List.prod_nil]
  | child :: rest, parts, h => by
    obtain ⟨first, hbuilt, _⟩ := exists_build child
    obtain ⟨others, hall, _⟩ := exists_buildAll rest
    have hparts : first :: others = parts := by
      simpa [buildAll, hbuilt, hall, bind, Except.bind, pure, Except.pure] using h
    rw [← hparts, List.map_cons, List.prod_cons, traces_build child hbuilt,
      traces_buildAll rest hall, denoteAll]

/-- The automata of the branches have the traces that the branches denote. -/
theorem traces_buildBranches : (branches : List (List Grammar)) → {parts : List Automaton} →
    buildBranches branches = .ok parts →
    (parts.map fun part => Automaton.traces part.states) = denoteBranches Rule.traces branches
  | [], parts, h => by
    cases h
    rw [denoteBranches, List.map_nil]
  | branch :: rest, parts, h => by
    obtain ⟨inner, hall, hsound⟩ := exists_buildAll branch
    obtain ⟨first, hconcat, _⟩ := Automaton.exists_concat hsound
    obtain ⟨others, hothers, _⟩ := exists_buildBranches rest
    have hparts : first :: others = parts := by
      simpa [buildBranches, hall, hconcat, hothers, bind, Except.bind, pure, Except.pure] using h
    rw [← hparts, List.map_cons, Automaton.traces_concat hsound hconcat,
      traces_buildAll branch hall, traces_buildBranches rest hothers, denoteBranches]

end

/-- The traces of the automaton of a grammar are the readings of the grammar, spelled out in
actions. -/
theorem traces_automaton (grammar : Grammar) :
    Automaton.traces grammar.automaton.states = respell Entry.actions grammar.readings := by
  rw [traces_build grammar grammar.build_eq_ok_automaton, readings, respell_denote]
  rfl

end Grammar

end CommandGrammar
