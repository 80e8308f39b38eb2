import CommandGrammar.Proofs.Workbench.ActiveGrammar

/-!
# Building the automaton on demand

A matcher builds its automaton when it is first asked something and keeps it for the questions that
follow.  Nobody can tell from the replies: a matcher that has been asked anything before replies to
a question as one that has just been made ready.  What tells is the log.  It begins with the
building of the automaton, if anything has been asked at all, and building is never reported again.

All five kinds of questions (`Matcher.Question`) go through the same door, `Matcher.ask`, which is
where the automaton is looked up or built.  `Question.posed` is what is behind the door: a question
to the automaton itself, which knows nothing of matchers.

Main statements:

* `put_of_fresh`, `put_ready`: one question, before and after the automaton is built;
* `putAll_ready`: any number of questions after that;
* `lazy_building_is_invisible`: any number of questions to a matcher that has just been made ready.
-/

namespace CommandGrammar

/-! ## What matching reports -/

/-- No match reports that an automaton was built. -/
theorem Automaton.automatonBuilt_not_mem_interpretFrom (a : Automaton) (options : MatchOptions)
    (position : Nat) (frontier : List Path) (symbols : List Symbol) (source : String)
    (states : Nat) :
    .automatonBuilt source states ∉ (a.interpretFrom options position frontier symbols).events := by
  induction symbols generalizing position frontier with
  | nil => exact List.not_mem_nil
  | cons symbol rest ih =>
    rw [interpretFrom]
    split
    · simp
    · simp
    · next next _ _ =>
      intro h
      rcases List.mem_cons.mp h with h | h
      · cases h
      · exact ih _ _ h

namespace Matcher

/-! ## Questions -/

/-- A question that can be put to a matcher. -/
inductive Question where
  | automaton
  | accepts (tokens : List String)
  | interpret (tokens : List String)
  | acceptsLine (line : String)
  | interpretLine (line : String)
  deriving DecidableEq, Repr

/-- What a matcher replies to a question. -/
inductive Reply where
  | automaton (automaton : Automaton)
  | accepted (accepted : Bool)
  | readings (result : Except MatchError (List Interpretation))

/-- An answer with its value told in another way. -/
def Answer.map {α β : Type} (f : α → β) (answer : Answer α) : Answer β :=
  ⟨f answer.value, answer.matcher, answer.events⟩

/-- Puts a question to a matcher. -/
def put (matcher : Matcher) : Question → Answer Reply
  | .automaton => matcher.automaton.map .automaton
  | .accepts tokens => (matcher.accepts tokens).map .accepted
  | .interpret tokens => (matcher.interpret tokens).map .readings
  | .acceptsLine line => (matcher.acceptsLine line).map .accepted
  | .interpretLine line => (matcher.interpretLine line).map .readings

/-- Puts questions one after the other, each of them to the matcher that the one before it has
left. -/
def putAll (matcher : Matcher) : List Question → Answer (List Reply)
  | [] => ⟨[], matcher, []⟩
  | question :: rest =>
    let first := matcher.put question
    let others := first.matcher.putAll rest
    ⟨first.value :: others.value, others.matcher, first.events ++ others.events⟩

/-- A question as it is put to the automaton, with the reply and what happens on the way. -/
def Question.posed (options : MatchOptions) (automaton : Automaton) : Question → Reply × List Event
  | .automaton => (.automaton automaton, [])
  | .accepts tokens => (.accepted (automaton.accepts tokens), [])
  | .interpret tokens =>
    let outcome := automaton.interpretWithEvents options tokens
    (.readings outcome.result, outcome.events)
  | .acceptsLine line => (.accepted (automaton.accepts (Line.tokens line)), [])
  | .interpretLine line =>
    let outcome := automaton.interpretWithEvents options (Line.tokens line)
    (.readings outcome.result, outcome.events)

/-- No question to an automaton has one built. -/
theorem Question.automatonBuilt_not_mem_posed (options : MatchOptions) (automaton : Automaton)
    (question : Question) (source : String) (states : Nat) :
    .automatonBuilt source states ∉ (question.posed options automaton).2 := by
  cases question with
  | automaton | accepts tokens | acceptsLine line => exact List.not_mem_nil
  | interpret tokens => exact automaton.automatonBuilt_not_mem_interpretFrom _ _ _ _ source states
  | interpretLine line =>
    exact automaton.automatonBuilt_not_mem_interpretFrom _ _ _ _ source states

/-- Every question is put to the automaton. -/
theorem put_eq_ask (matcher : Matcher) (question : Question) :
    matcher.put question = matcher.ask (question.posed matcher.options) := by
  cases hbuilt : matcher.built <;> cases question <;>
    simp [put, automaton, accepts, interpret, acceptsLine, interpretLine, ask, Answer.map, hbuilt,
      Question.posed]

/-! ## Before and after the automaton is built -/

/-- The matcher with its automaton built. -/
def ready (matcher : Matcher) : Matcher := { matcher with built := some matcher.grammar.automaton }

/-- The reply of the automaton of a matcher, and what happens on the way. -/
def direct (matcher : Matcher) (question : Question) : Reply × List Event :=
  question.posed matcher.options matcher.grammar.automaton

/-- The report that the automaton of a matcher was built. -/
def building (matcher : Matcher) : Event :=
  .automatonBuilt matcher.source matcher.grammar.automaton.size

/-- The first question has the automaton built, which is reported before anything else. -/
theorem put_of_fresh {matcher : Matcher} (h : matcher.built = none) (question : Question) :
    matcher.put question = ⟨(matcher.direct question).1, matcher.ready,
      matcher.building :: (matcher.direct question).2⟩ := by
  rw [put_eq_ask, ask, h]
  rfl

/-- A question that comes later finds the automaton there. -/
theorem put_ready (matcher : Matcher) (question : Question) :
    matcher.ready.put question =
      ⟨(matcher.direct question).1, matcher.ready, (matcher.direct question).2⟩ := by
  rw [put_eq_ask]
  rfl

/-- Questions that come later find the automaton there, however many they are. -/
theorem putAll_ready (matcher : Matcher) (questions : List Question) :
    matcher.ready.putAll questions =
      ⟨questions.map fun question => (matcher.direct question).1, matcher.ready,
        questions.flatMap fun question => (matcher.direct question).2⟩ := by
  induction questions with
  | nil => rfl
  | cons question rest ih =>
    rw [putAll, put_ready, ih]
    rfl

/-- The first of several questions has the automaton built, and the others find it there. -/
theorem putAll_cons_of_fresh {matcher : Matcher} (h : matcher.built = none) (question : Question)
    (rest : List Question) :
    matcher.putAll (question :: rest) =
      ⟨(question :: rest).map fun question => (matcher.direct question).1, matcher.ready,
        matcher.building ::
          (question :: rest).flatMap fun question => (matcher.direct question).2⟩ := by
  rw [putAll, put_of_fresh h, putAll_ready]
  rfl

/-- **Building on demand cannot be noticed, but for one event.**  Let any questions be put to a
matcher that has just been made ready.  Where the automaton is there, it is that of the grammar, and
it is there as soon as anything was asked.  Each reply is the one that the matcher would have given
if nothing had been asked before.  If anything was asked at all, the first event is that the
automaton of this source was built, with so many states; after it come the events of the single
questions, and none of them is of this kind. -/
theorem lazy_building_is_invisible {options : MatchOptions} {source : String} {matcher : Matcher}
    (h : compile options source = .ok matcher) (questions : List Question) :
    (matcher.putAll questions).matcher.built =
        (if questions = [] then none else some matcher.grammar.automaton) ∧
    (matcher.putAll questions).value =
        questions.map (fun question => (matcher.put question).value) ∧
    (questions = [] → (matcher.putAll questions).events = []) ∧
    (questions ≠ [] → ∃ others, (matcher.putAll questions).events =
        .automatonBuilt source matcher.grammar.automaton.size :: others ∧
      (∀ other states, .automatonBuilt other states ∉ others) ∧
      others = questions.flatMap fun question => (matcher.put question).events.tail) := by
  obtain ⟨tree, -, rfl⟩ := compile_eq_ok_iff.mp h
  have hfresh : (⟨source, tree, options, none⟩ : Matcher).built = none := rfl
  cases questions with
  | nil => exact ⟨hfresh, rfl, fun _ => rfl, fun hne => absurd rfl hne⟩
  | cons question rest =>
    rw [putAll_cons_of_fresh hfresh]
    refine ⟨rfl, ?_, nofun, fun _ => ⟨_, rfl, fun other states hmem => ?_, ?_⟩⟩
    · exact List.map_congr_left fun asked _ => by rw [put_of_fresh hfresh]
    · obtain ⟨asked, -, hmem⟩ := List.mem_flatMap.mp hmem
      exact asked.automatonBuilt_not_mem_posed _ _ other states hmem
    · simp only [put_of_fresh hfresh, List.tail_cons]

/-- Three questions to one matcher, of which the first has the automaton built. -/
theorem lazy_building_is_invisible_take :
    ∃ matcher, compile .standard "take ITEM" = .ok matcher ∧ matcher.built = none ∧
      ∃ others, (matcher.putAll [.acceptsLine "take 'old sword'", .automaton,
          .interpret ["take", "sword"]]).events = .automatonBuilt "take ITEM" 7 :: others ∧
        ∀ other states, .automatonBuilt other states ∉ others := by
  have hparse : Grammar.parse "take ITEM" =
      .ok (.sequence [Grammar.keyword "take", Grammar.capture ["ITEM"]]) := by decide +kernel
  have hcompile : compile .standard "take ITEM" = .ok ⟨"take ITEM",
      .sequence [Grammar.keyword "take", Grammar.capture ["ITEM"]], .standard, none⟩ :=
    compile_eq_ok_iff.mpr ⟨_, hparse, rfl⟩
  have hsize : (Grammar.sequence [Grammar.keyword "take",
      Grammar.capture ["ITEM"]]).automaton.size = 7 := by decide +kernel
  obtain ⟨-, -, -, hlog⟩ := lazy_building_is_invisible hcompile
    [.acceptsLine "take 'old sword'", .automaton, .interpret ["take", "sword"]]
  obtain ⟨others, hevents, hothers, -⟩ := hlog (List.cons_ne_nil _ _)
  rw [hsize] at hevents
  exact ⟨_, hcompile, rfl, others, hevents, hothers⟩

end Matcher
end CommandGrammar
