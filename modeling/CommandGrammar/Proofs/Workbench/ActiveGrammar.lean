import Mathlib.Control.Monad.Basic
import CommandGrammar.Workbench.Basic

/-!
# The active grammar of a workbench

A workbench that is given line after line answers some of them, refuses others and builds automata
on the way, but only one kind of line changes its active grammar: a `:grammar` or `:g` command with
a source that can be read (`Workbench.SetsGrammar`).  What the active grammar is made of, its source,
its tree and its options, is therefore decided by the last such line.

What a matcher is made of is `Matcher.settings`, which leaves out the automaton that it may have
built; no question that is put to a matcher changes it.  From this every command but one keeps a
workbench (`Keeps`, `keeps_perform`), and no line changes the options for new grammars, which is why
the last line that sets a grammar can be taken by itself.

Main statements:

* `setsGrammar_iff_ofLine`: what such a line looks like, and how it is understood;
* `eval_of_sets`, `keeps_eval`: one line;
* `active_grammar_is_last_set`: any number of lines.
-/

namespace CommandGrammar

/-! ## What a matcher is made of -/

namespace Matcher

/-- The source, the tree and the options of a matcher. -/
def settings (matcher : Matcher) : String × Grammar × MatchOptions :=
  (matcher.source, matcher.grammar, matcher.options)

/-- A question leaves a matcher as it is but for the automaton. -/
theorem settings_ask {α : Type} (matcher : Matcher) (question : Automaton → α × List Event) :
    (matcher.ask question).matcher.settings = matcher.settings := by
  unfold ask
  split <;> rfl

/-- A source is made ready exactly when it can be read. -/
theorem compile_eq_ok_iff {options : MatchOptions} {source : String} {matcher : Matcher} :
    compile options source = .ok matcher ↔
      ∃ tree, Grammar.parse source = .ok tree ∧ matcher = ⟨source, tree, options, none⟩ := by
  unfold compile
  cases Grammar.parse source with
  | error error => simp [Except.map]
  | ok tree => simp [Except.map, @eq_comm _ matcher]

end Matcher

namespace Workbench

/-! ## Lines that set a grammar -/

/-- The line is a `:grammar` or `:g` command whose argument, taken without the blanks around it, is
not empty and can be read as the tree. -/
def SetsGrammar (line source : String) (tree : Grammar) : Prop :=
  ∃ (name : String) (blank : Char) (rest : List Char), (name = "grammar" ∨ name = "g") ∧
    Text.isBlank blank = true ∧
    Text.trim line.toList = ':' :: (name.toList ++ blank :: rest) ∧
    source = String.ofList (Text.trim (blank :: rest)) ∧ source ≠ "" ∧
    Grammar.parse source = .ok tree

theorem ofName_eq_setGrammar_iff {name argument source : String} :
    Command.ofName name argument = .setGrammar source ↔
      (name = "grammar" ∨ name = "g") ∧ argument ≠ "" ∧ source = argument := by
  unfold Command.ofName
  split
  · by_cases hempty : argument = ""
    · simp [hempty]
    · simp [hempty, @eq_comm _ source]
  · by_cases hempty : argument = ""
    · simp [hempty]
    · simp [hempty, @eq_comm _ source]
  all_goals simp_all

/-- The name of a command ends before the first blank. -/
theorem ofLine_of_trim {line name : String} {blank : Char} {rest : List Char}
    (hname : ∀ c ∈ name.toList, isInk c = true) (hblank : Text.isBlank blank = true)
    (h : Text.trim line.toList = ':' :: (name.toList ++ blank :: rest)) :
    Input.ofLine line = .command name (String.ofList (Text.trim (blank :: rest))) := by
  have hstop : isInk blank = false := by simp [isInk, hblank]
  unfold Input.ofLine
  rw [h]
  simp only [List.takeWhile_append_of_pos hname, List.dropWhile_append_of_pos hname]
  rw [List.takeWhile_cons_of_neg (by simp [hstop]), List.dropWhile_cons_of_neg (by simp [hstop]),
    List.append_nil, String.ofList_toList]

/-- A line sets a grammar exactly when it is understood as the command to do so, with a source that
can be read. -/
theorem setsGrammar_iff_ofLine {line source : String} {tree : Grammar} :
    SetsGrammar line source tree ↔ ∃ name argument, Input.ofLine line = .command name argument ∧
      Command.ofName name argument = .setGrammar source ∧ Grammar.parse source = .ok tree := by
  constructor
  · rintro ⟨name, blank, rest, hname, hblank, htrim, rfl, hne, hparse⟩
    have hink : name.toList.all isInk = true := by
      rcases hname with rfl | rfl <;> decide
    exact ⟨name, _, ofLine_of_trim (List.all_eq_true.mp hink) hblank htrim,
      ofName_eq_setGrammar_iff.mpr ⟨hname, hne, rfl⟩, hparse⟩
  · rintro ⟨name, argument, hline, hcommand, hparse⟩
    obtain ⟨hname, hne, rfl⟩ := ofName_eq_setGrammar_iff.mp hcommand
    unfold Input.ofLine at hline
    split at hline
    · next chars htrim =>
      obtain ⟨rfl, rfl⟩ := Input.command.inj hline
      -- the argument is not empty, so there is a first character after the name
      cases hafter : chars.dropWhile isInk with
      | nil => exact absurd (by rw [hafter]; rfl) hne
      | cons blank rest =>
        have hblank : isInk blank = false := by
          have hhead := List.head?_dropWhile_not isInk chars
          rw [hafter] at hhead
          simpa using hhead
        refine ⟨_, blank, rest, hname, by simpa [isInk] using hblank, ?_, rfl,
          hafter ▸ hne, hafter ▸ hparse⟩
        rw [htrim, String.toList_ofList, ← hafter, List.takeWhile_append_dropWhile]
    · cases hline

/-! ## One line -/

/-- The source, the tree and the options of the active grammar. -/
def settings (bench : Workbench) : Option (String × Grammar × MatchOptions) :=
  bench.matcher.map Matcher.settings

/-- An evaluation keeps a workbench: what the active grammar is made of and the options for new
grammars are as before, and the editor is not to blame for anything. -/
structure Keeps (bench : Workbench) (evaluation : Evaluation) : Prop where
  settings : evaluation.workbench.settings = bench.settings
  options : evaluation.workbench.options = bench.options
  not_editor : ∀ message, evaluation.result ≠ .error (.editor message)

section

variable (bench : Workbench)

theorem keeps_unchanged {result : Except WorkbenchError Response}
    (h : ∀ message, result ≠ .error (.editor message)) : bench.Keeps (bench.unchanged result) :=
  ⟨rfl, rfl, h⟩

theorem keeps_ask {α : Type} {question : Matcher → Matcher.Answer α}
    {result : α → Except WorkbenchError Response}
    (hquestion : ∀ matcher, (question matcher).matcher.settings = matcher.settings)
    (hresult : ∀ value message, result value ≠ .error (.editor message)) :
    bench.Keeps (bench.ask question result) := by
  unfold ask
  cases hmatcher : bench.matcher with
  | none => exact bench.keeps_unchanged nofun
  | some matcher => exact ⟨by simp [settings, activate, hmatcher, hquestion], rfl, hresult _⟩

theorem keeps_interpret (text : String) : bench.Keeps (bench.interpret text) := by
  unfold interpret
  split
  · exact bench.keeps_unchanged nofun
  · split
    · exact bench.keeps_unchanged nofun
    · refine bench.keeps_ask (fun matcher => matcher.settings_ask _) fun value message => ?_
      split <;> exact nofun

/-- Every command but the one that sets a grammar keeps the workbench. -/
theorem keeps_perform {command : Command} (h : ∀ source, command ≠ .setGrammar source) :
    bench.Keeps (bench.perform command) := by
  cases command with
  | setGrammar source => exact absurd rfl (h source)
  | showGrammar | showTree =>
    rw [perform]
    split <;> exact bench.keeps_unchanged nofun
  | showTable =>
    rw [perform]
    refine bench.keeps_ask (fun matcher => ?_) fun automaton message => nofun
    exact matcher.settings_ask _
  | showTokens line =>
    rw [perform]
    split
    · exact bench.keeps_unchanged nofun
    · split <;> exact bench.keeps_unchanged nofun
  | accepts line =>
    rw [perform]
    split
    · exact bench.keeps_unchanged nofun
    · exact bench.keeps_ask (fun matcher => matcher.settings_ask _) fun _ _ => nofun
  | help | quit | unknown name => exact bench.keeps_unchanged nofun

/-- The command that sets a grammar keeps the workbench if the source cannot be read. -/
theorem keeps_perform_setGrammar {source : String} {error : Grammar.SourceError}
    (h : Grammar.parse source = .error error) :
    bench.Keeps (bench.perform (.setGrammar source)) := by
  have hcompile : Matcher.compile bench.options source = .error error := by
    rw [Matcher.compile, h]
    rfl
  rw [perform, setGrammar, hcompile]
  exact bench.keeps_unchanged nofun

/-- The command that sets a grammar makes it the active one if the source can be read, and shows
it. -/
theorem perform_setGrammar_of_parse {source : String} {tree : Grammar}
    (h : Grammar.parse source = .ok tree) :
    bench.perform (.setGrammar source) =
      ⟨.ok (.output ("grammar set: " ++ tree.toSource)),
        bench.activate ⟨source, tree, bench.options, none⟩, [.grammarChanged tree.toSource]⟩ := by
  have hcompile : Matcher.compile bench.options source = .ok ⟨source, tree, bench.options, none⟩ :=
    Matcher.compile_eq_ok_iff.mpr ⟨tree, h, rfl⟩
  rw [perform, setGrammar, hcompile]
  rfl

variable {line : String}

/-- A line that sets a grammar makes it the active one, and is not refused. -/
theorem eval_of_sets {source : String} {tree : Grammar} (h : SetsGrammar line source tree) :
    (bench.eval line).workbench = bench.activate ⟨source, tree, bench.options, none⟩ ∧
      ∃ text, (bench.eval line).result = .ok (.output text) := by
  obtain ⟨name, argument, hline, hcommand, hparse⟩ := setsGrammar_iff_ofLine.mp h
  unfold eval
  rw [hline]
  show (bench.perform (.ofName name argument)).workbench = _ ∧
    ∃ text, (bench.perform (.ofName name argument)).result = _
  rw [hcommand, bench.perform_setGrammar_of_parse hparse]
  exact ⟨rfl, _, rfl⟩

/-- Any other line keeps the workbench. -/
theorem keeps_eval (h : ∀ source tree, ¬ SetsGrammar line source tree) :
    bench.Keeps (bench.eval line) := by
  unfold eval
  split
  · exact bench.keeps_interpret _
  · next name argument hline =>
    -- the event that stands before the others is no part of what is kept
    suffices hkeeps : bench.Keeps (bench.perform (.ofName name argument)) from
      ⟨hkeeps.settings, hkeeps.options, hkeeps.not_editor⟩
    by_cases hcommand : ∃ source, Command.ofName name argument = .setGrammar source
    · obtain ⟨source, hcommand⟩ := hcommand
      rw [hcommand]
      cases hparse : Grammar.parse source with
      | error error => exact bench.keeps_perform_setGrammar hparse
      | ok tree =>
        exact absurd (setsGrammar_iff_ofLine.mpr ⟨name, argument, hline, hcommand, hparse⟩)
          (h source tree)
    · exact bench.keeps_perform fun source heq => hcommand ⟨source, heq⟩

/-- No line changes the options for new grammars. -/
theorem options_eval (line : String) : (bench.eval line).workbench.options = bench.options := by
  by_cases h : ∃ source tree, SetsGrammar line source tree
  · obtain ⟨source, tree, h⟩ := h
    rw [(bench.eval_of_sets h).1]
    rfl
  · exact (bench.keeps_eval fun source tree hsets => h ⟨source, tree, hsets⟩).options

/-- No evaluation fails in the name of the editor. -/
theorem eval_ne_editor (line message : String) :
    (bench.eval line).result ≠ .error (.editor message) := by
  by_cases h : ∃ source tree, SetsGrammar line source tree
  · obtain ⟨source, tree, h⟩ := h
    obtain ⟨-, text, hresult⟩ := bench.eval_of_sets h
    rw [hresult]
    exact nofun
  · exact (bench.keeps_eval fun source tree hsets => h ⟨source, tree, hsets⟩).not_editor message

/-- A line that is refused sets no grammar. -/
theorem not_setsGrammar_of_error {error : WorkbenchError}
    (h : (bench.eval line).result = .error error) (source : String) (tree : Grammar) :
    ¬ SetsGrammar line source tree := by
  intro hsets
  obtain ⟨-, text, hresult⟩ := bench.eval_of_sets hsets
  rw [h] at hresult
  cases hresult

end

/-! ## Any number of lines -/

/-- The workbench after lines that are evaluated one after the other, whatever they answer. -/
def evalAll (bench : Workbench) (lines : List String) : Workbench :=
  lines.foldl (fun bench line => (bench.eval line).workbench) bench

theorem evalAll_append (bench : Workbench) (first second : List String) :
    bench.evalAll (first ++ second) = (bench.evalAll first).evalAll second :=
  List.foldl_append

theorem evalAll_cons (bench : Workbench) (line : String) (rest : List String) :
    bench.evalAll (line :: rest) = (bench.eval line).workbench.evalAll rest := rfl

theorem options_evalAll (bench : Workbench) (lines : List String) :
    (bench.evalAll lines).options = bench.options := by
  induction lines generalizing bench with
  | nil => rfl
  | cons line rest ih => rw [evalAll_cons, ih, options_eval]

/-- Lines that set no grammar leave the active one as it is. -/
theorem settings_evalAll_of_not_sets (bench : Workbench) {lines : List String}
    (h : ∀ line ∈ lines, ∀ source tree, ¬ SetsGrammar line source tree) :
    (bench.evalAll lines).settings = bench.settings := by
  induction lines generalizing bench with
  | nil => rfl
  | cons line rest ih =>
    obtain ⟨hline, hrest⟩ := List.forall_mem_cons.mp h
    rw [evalAll_cons, ih _ hrest, (bench.keeps_eval hline).settings]

/-- **The active grammar is the last one that was set.**  After any lines its source, tree and
options are those with which the last line that sets a grammar is made ready, under the options of
the workbench; if no line sets one, they are what they were.  In particular a line that is refused
leaves them as they are, and so does a line that is not a command to set a grammar. -/
theorem active_grammar_is_last_set (bench : Workbench) :
    (∀ before line after source tree, SetsGrammar line source tree →
      (∀ later ∈ after, ∀ source tree, ¬ SetsGrammar later source tree) →
      ∃ matcher, Matcher.compile bench.options source = .ok matcher ∧ matcher.grammar = tree ∧
        (bench.evalAll (before ++ line :: after)).settings = some matcher.settings) ∧
    (∀ lines : List String, (∀ line ∈ lines, ∀ source tree, ¬ SetsGrammar line source tree) →
      (bench.evalAll lines).settings = bench.settings) ∧
    (∀ line error, (bench.eval line).result = .error error →
      (bench.eval line).workbench.settings = bench.settings) ∧
    (∀ line, (∀ source tree, ¬ SetsGrammar line source tree) →
      (bench.eval line).workbench.settings = bench.settings) := by
  refine ⟨fun before line after source tree hline hafter => ?_,
    fun lines h => bench.settings_evalAll_of_not_sets h,
    fun line error h => (bench.keeps_eval (bench.not_setsGrammar_of_error h)).settings,
    fun line h => (bench.keeps_eval h).settings⟩
  have hparse : Grammar.parse source = .ok tree := by
    obtain ⟨_, _, _, _, hparse⟩ := setsGrammar_iff_ofLine.mp hline
    exact hparse
  refine ⟨⟨source, tree, bench.options, none⟩,
    Matcher.compile_eq_ok_iff.mpr ⟨tree, hparse, rfl⟩, rfl, ?_⟩
  rw [evalAll_append, evalAll_cons, settings_evalAll_of_not_sets _ hafter,
    ((bench.evalAll before).eval_of_sets hline).1, options_evalAll]
  rfl

/-- A line to be read, and a command with a source that cannot be read, leave the grammar active
that was set before them. -/
theorem active_grammar_is_last_set_take :
    SetsGrammar " :g  take ITEM" "take ITEM"
      (.sequence [Grammar.keyword "take", Grammar.capture ["ITEM"]]) ∧
    (∀ source tree, ¬ SetsGrammar "take sword" source tree) ∧
    (∀ source tree, ¬ SetsGrammar ":grammar drop (ITEM" source tree) ∧
    ∃ matcher, Matcher.compile .standard "take ITEM" = .ok matcher ∧
      ((new .standard .lenient).evalAll
        [":g wait", " :g  take ITEM", "take sword", ":grammar drop (ITEM"]).settings =
          some matcher.settings := by
  have hsets : SetsGrammar " :g  take ITEM" "take ITEM"
      (.sequence [Grammar.keyword "take", Grammar.capture ["ITEM"]]) :=
    setsGrammar_iff_ofLine.mpr ⟨"g", "take ITEM", by decide +kernel, by decide +kernel,
      by decide +kernel⟩
  have hline : Input.ofLine "take sword" = .line "take sword" := by decide +kernel
  have hplain : ∀ source tree, ¬ SetsGrammar "take sword" source tree := by
    intro source tree h
    obtain ⟨name, argument, hcommand, -⟩ := setsGrammar_iff_ofLine.mp h
    rw [hline] at hcommand
    cases hcommand
  have hdrop : Input.ofLine ":grammar drop (ITEM" = .command "grammar" "drop (ITEM" := by
    decide +kernel
  have hunclosed : Grammar.parse "drop (ITEM" = .error ⟨.unclosedGroups 1, 10⟩ := by
    decide +kernel
  have hrefused : ∀ source tree, ¬ SetsGrammar ":grammar drop (ITEM" source tree := by
    intro source tree h
    obtain ⟨name, argument, hcommand, hset, hparse⟩ := setsGrammar_iff_ofLine.mp h
    rw [hdrop] at hcommand
    obtain ⟨rfl, rfl⟩ := Input.command.inj hcommand
    obtain ⟨-, -, rfl⟩ := ofName_eq_setGrammar_iff.mp hset
    rw [hunclosed] at hparse
    cases hparse
  have hlater : ∀ later ∈ ["take sword", ":grammar drop (ITEM"],
      ∀ source tree, ¬ SetsGrammar later source tree :=
    List.forall_mem_cons.mpr ⟨hplain, List.forall_mem_singleton.mpr hrefused⟩
  obtain ⟨matcher, hcompile, -, hsettings⟩ :=
    (active_grammar_is_last_set (new .standard .lenient)).1 [":g wait"] _ _ _ _ hsets hlater
  exact ⟨hsets, hplain, hrefused, matcher, hcompile, hsettings⟩

end Workbench
end CommandGrammar
