import CommandGrammar.Proofs.Grammar.Letters
import CommandGrammar.Proofs.Workbench.CommandName

/-!
# Entering the shown grammar again

The command `:grammar` shows the active grammar as a source, and this source can be entered after
`:grammar` again.  On the way it is trimmed.  Trimming takes off white space of any kind, but in a
source only separators are between words, so a no-break space at either end of a source is part of a
word, and a letter of it goes missing.  A source that is shown has no separators at its ends
(`Canonical.framed_toSource`).  It is entered unchanged if it has no other white space there either
(`Text.Trimmed`), and then the same tree is read from it.  Otherwise the text that is read has fewer
letters than the shown one, and so has the tree that is read from it, which is therefore shown
differently.

The active grammar of a workbench is always read from its source.  This holds for every workbench
that can come about (`Reachable`), because no other way leads to an active grammar
(`Reachable.holdsParsed`).
-/

namespace CommandGrammar

/-! ## Trimmed texts -/

namespace Text

/-- A text that neither begins nor ends with white space. -/
structure Trimmed (cs : List Char) : Prop where
  first : ∀ c ∈ cs.head?, isBlank c = false
  last : ∀ c ∈ cs.getLast?, isBlank c = false

instance (cs : List Char) : Decidable (Trimmed cs) :=
  decidable_of_iff (cs.head?.any isBlank = false ∧ cs.getLast?.any isBlank = false)
    ⟨fun h => ⟨(Option.any_eq_false _ _).mp h.1, (Option.any_eq_false _ _).mp h.2⟩,
      fun h => ⟨(Option.any_eq_false _ _).mpr h.first, (Option.any_eq_false _ _).mpr h.last⟩⟩

/-- Trimming leaves such a text as it is. -/
theorem Trimmed.trim_eq {cs : List Char} (h : Trimmed cs) : trim cs = cs := by
  have hleft : trimLeft cs = cs := by
    cases cs with
    | nil => rfl
    | cons c rest =>
      have hc : isBlank c = false := h.first c rfl
      exact List.dropWhile_cons_of_neg (by simp [hc])
  have hright : trimRight cs = cs := by
    cases cs using List.reverseRecOn with
    | nil => rfl
    | append_singleton front c =>
      have hc : isBlank c = false := h.last c List.getLast?_concat
      exact trimRight_append_cons hc front []
  rw [trim, hleft, hright]

theorem trim_sublist (cs : List Char) : (trim cs).Sublist cs :=
  (trimRight_isPrefix _).sublist.trans (List.dropWhile_sublist isBlank)

theorem trim_cons_of_isBlank {c : Char} (h : isBlank c = true) (rest : List Char) :
    trim (c :: rest) = trim rest := by
  rw [trim, trimLeft, List.dropWhile_cons_of_pos h, trim, trimLeft]

theorem trim_concat_of_isBlank {c : Char} (h : isBlank c = true) (front : List Char) :
    trim (front ++ [c]) = trim front := by
  have hright : trimRight (front ++ [c]) = trimRight front := by simp [trimRight, h]
  rw [← trim_trimRight, hright, trim_trimRight]

end Text

namespace Grammar

open Text

/-- White space that is no separator is a letter of a source. -/
theorem isWordChar_of_isBlank {c : Char} (hblank : isBlank c = true)
    (hseparator : isSeparator c = false) : isWordChar c = true := by
  refine isWordChar_of_markOf (by simp [hseparator]) ?_
  unfold markOf
  split
  iterate 6 exact absurd hblank (by decide)
  rfl

/-- Where no letter is lost, a character that is no separator and would be cut off as white space is
no white space. -/
theorem not_isBlank_of_cut (front : List Char) {c : Char} {rest : List Char}
    (hseparator : isSeparator c = false)
    (hletters : ((front ++ c :: rest).filter isWordChar).Sublist
      ((trim (front ++ c :: rest)).filter isWordChar))
    (hcut : isBlank c = true → (trim (front ++ c :: rest)).Sublist (front ++ rest)) :
    isBlank c = false := by
  by_contra hne
  have hblank : isBlank c = true := Bool.not_eq_false _ ▸ hne
  have hlength := (hletters.trans ((hcut hblank).filter isWordChar)).length_le
  simp only [List.filter_append, List.filter_cons_of_pos (isWordChar_of_isBlank hblank hseparator),
    List.length_append, List.length_cons] at hlength
  omega

/-- A text without separators at its ends that keeps its letters when it is trimmed is trimmed. -/
theorem Framed.trimmed {cs : List Char} (h : Framed cs)
    (hletters : (cs.filter isWordChar).Sublist ((trim cs).filter isWordChar)) : Trimmed cs := by
  constructor
  · obtain ⟨c, hc, hseparator⟩ := h.first
    intro d hd
    obtain rfl : c = d := Option.some.inj (hc.symm.trans hd)
    obtain ⟨rest, rfl⟩ := List.head?_eq_some_iff.mp hc
    refine not_isBlank_of_cut [] hseparator hletters fun hblank => ?_
    rw [List.nil_append, trim_cons_of_isBlank hblank]
    exact trim_sublist rest
  · obtain ⟨c, hc, hseparator⟩ := h.last
    intro d hd
    obtain rfl : c = d := Option.some.inj (hc.symm.trans hd)
    obtain ⟨front, rfl⟩ := List.getLast?_eq_some_iff.mp hc
    refine not_isBlank_of_cut front hseparator hletters fun hblank => ?_
    rw [trim_concat_of_isBlank hblank, List.append_nil]
    exact trim_sublist front

end Grammar

namespace Workbench

open Text

/-! ## Workbenches that can come about -/

/-- A workbench that can come about.  It begins without a grammar, and from then on it is given other
options, a grammar or a line to evaluate, in any order. -/
inductive Reachable : Workbench → Prop where
  | new (options : MatchOptions) (quotes : QuoteMode) : Reachable (new options quotes)
  | withOptions {bench : Workbench} (options : MatchOptions) : Reachable bench →
      Reachable { bench with options }
  | withQuotes {bench : Workbench} (quotes : QuoteMode) : Reachable bench →
      Reachable { bench with quotes }
  | withGrammar {bench next : Workbench} {source : String} {matcher : Matcher} : Reachable bench →
      bench.setGrammar source = .ok (next, matcher) → Reachable next
  | eval {bench : Workbench} (line : String) : Reachable bench →
      Reachable (bench.eval line).workbench

/-- The active grammar, if there is one, is read from its source. -/
def HoldsParsed (bench : Workbench) : Prop :=
  ∀ source tree options, bench.settings = some (source, tree, options) →
    Grammar.parse source = .ok tree

theorem holdsParsed_activate (bench : Workbench) {source : String} {tree : Grammar}
    (h : Grammar.parse source = .ok tree) (options : MatchOptions) :
    (bench.activate ⟨source, tree, options, none⟩).HoldsParsed := by
  intro other second _ hsettings
  cases hsettings
  exact h

theorem HoldsParsed.eval {bench : Workbench} (h : bench.HoldsParsed) (line : String) :
    (bench.eval line).workbench.HoldsParsed := by
  by_cases hsets : ∃ source tree, SetsGrammar line source tree
  · obtain ⟨source, tree, hsets⟩ := hsets
    obtain ⟨-, -, -, -, hparse⟩ := setsGrammar_iff_ofLine.mp hsets
    rw [(bench.eval_of_sets hsets).1]
    exact bench.holdsParsed_activate hparse bench.options
  · have hkeeps := bench.keeps_eval fun source tree hline => hsets ⟨source, tree, hline⟩
    intro source tree options hsettings
    rw [hkeeps.settings] at hsettings
    exact h source tree options hsettings

theorem Reachable.holdsParsed {bench : Workbench} (h : bench.Reachable) : bench.HoldsParsed := by
  induction h with
  | new options quotes => exact nofun
  | withOptions _ _ ih => exact ih
  | withQuotes _ _ ih => exact ih
  | @withGrammar bench next source matcher _ hset ih =>
    rw [setGrammar] at hset
    split at hset
    · cases hset
    · next compiled hcompile =>
      obtain ⟨tree, hparse, rfl⟩ := Matcher.compile_eq_ok_iff.mp hcompile
      cases hset
      exact bench.holdsParsed_activate hparse bench.options
  | eval line _ ih => exact ih.eval line

/-! ## Showing and entering -/

theorem ofLine_showGrammar : Input.ofLine ":grammar" = .command "grammar" "" := by decide +kernel

/-- What is shown is the active grammar, and showing it changes nothing. -/
theorem eval_showGrammar {bench : Workbench} {shown : String}
    (h : (bench.eval ":grammar").result = .ok (.output shown)) :
    (bench.eval ":grammar").workbench = bench ∧
      ∃ matcher, bench.matcher = some matcher ∧ matcher.grammar.toSource = shown := by
  have hcommand : Command.ofName "grammar" "" = .showGrammar := rfl
  rw [eval_of_command ofLine_showGrammar, hcommand, perform] at h ⊢
  cases hmatcher : bench.matcher with
  | none =>
    rw [hmatcher] at h
    cases h
  | some matcher =>
    rw [hmatcher] at h
    exact ⟨rfl, matcher, rfl, Response.output.inj (Except.ok.inj h)⟩

theorem ofLine_grammar (text : String) :
    Input.ofLine (":grammar " ++ text) =
      .command "grammar" (String.ofList (trim text.toList)) := by
  have hink : isInk ' ' = false := by decide
  rw [ofLine_of_trimLeft (trimLeft_grammar text), List.takeWhile_cons_of_neg (by simp [hink]),
    List.dropWhile_cons_of_neg (by simp [hink]), trim_cons_of_isBlank (by decide)]
  rfl

/-- A text is entered without the white space around it. -/
theorem eval_grammar {text : String} (h : trim text.toList ≠ []) (bench : Workbench) :
    (bench.eval (":grammar " ++ text)).result =
        (bench.perform (.setGrammar (String.ofList (trim text.toList)))).result ∧
      (bench.eval (":grammar " ++ text)).workbench =
        (bench.perform (.setGrammar (String.ofList (trim text.toList)))).workbench := by
  have hne : String.ofList (trim text.toList) ≠ "" := String.ofList_eq_empty_iff.not.mpr h
  rw [eval_of_command (ofLine_grammar text), ofName_eq_setGrammar_iff.mpr ⟨.inl rfl, hne, rfl⟩]
  exact ⟨rfl, rfl⟩

/-- A text that is shown and, when it is entered, answered as if it had been set unchanged is the
text of what is read from it. -/
theorem exists_parse_of_output {bench : Workbench} {shown : String}
    (hshown : (bench.eval ":grammar").result = .ok (.output shown))
    (h : (bench.eval (":grammar " ++ shown)).result = .ok (.output ("grammar set: " ++ shown))) :
    ∃ tree, Grammar.parse (String.ofList (trim shown.toList)) = .ok tree ∧
      tree.toSource = shown := by
  by_cases hempty : trim shown.toList = []
  · -- nothing is left to be entered, so the grammar is only shown once more
    have hagain : (bench.eval (":grammar " ++ shown)).result = (bench.eval ":grammar").result := by
      rw [eval_of_command (ofLine_grammar shown), hempty, eval_of_command ofLine_showGrammar]
    rw [hagain, hshown] at h
    have hlength := congrArg String.length (Response.output.inj (Except.ok.inj h))
    simp at hlength
  · rw [(eval_grammar hempty bench).1] at h
    cases hparse : Grammar.parse (String.ofList (trim shown.toList)) with
    | error error =>
      rw [perform, setGrammar, Matcher.compile, hparse] at h
      cases h
    | ok tree =>
      rw [bench.perform_setGrammar_of_parse hparse] at h
      have htext := Response.output.inj (Except.ok.inj h)
      exact ⟨tree, rfl, by simpa using htext⟩

/-- **The shown grammar can be entered again if nothing of it is trimmed off.**  Let the text that a
workbench shows for its active grammar be entered again.  If it neither begins nor ends with white
space, it is answered as the grammar that was set, and the tree of the active grammar is the same as
before.  If it does, which takes white space other than separators, another text is answered. -/
theorem shown_grammar_reenters {bench : Workbench} (h : bench.Reachable) {shown : String}
    (hshown : (bench.eval ":grammar").result = .ok (.output shown)) :
    let again := (bench.eval ":grammar").workbench.eval (":grammar " ++ shown)
    (Trimmed shown.toList → again.result = .ok (.output ("grammar set: " ++ shown)) ∧
      again.workbench.matcher.map Matcher.grammar = bench.matcher.map Matcher.grammar) ∧
    (¬ Trimmed shown.toList → again.result ≠ .ok (.output ("grammar set: " ++ shown))) := by
  obtain ⟨hbench, matcher, hmatcher, rfl⟩ := eval_showGrammar hshown
  have hsource : Grammar.parse matcher.source = .ok matcher.grammar :=
    h.holdsParsed _ _ matcher.options (by rw [settings, hmatcher]; rfl)
  have hcanonical := Grammar.canonical_of_parse hsource
  have hframed := hcanonical.framed_toSource
  rw [hbench]
  refine ⟨fun htrimmed => ?_, fun htrimmed hresult => htrimmed ?_⟩
  · have hparse : Grammar.parse (String.ofList (trim matcher.grammar.toSource.toList)) =
        .ok matcher.grammar := by
      rw [htrimmed.trim_eq, String.ofList_toList, Grammar.parse_toSource hcanonical]
    have hne : trim matcher.grammar.toSource.toList ≠ [] := by
      rw [htrimmed.trim_eq]
      obtain ⟨c, hc, -⟩ := hframed.first
      exact List.ne_nil_of_mem (List.mem_of_mem_head? hc)
    obtain ⟨hresult, hworkbench⟩ := eval_grammar hne bench
    rw [hresult, hworkbench, bench.perform_setGrammar_of_parse hparse, hmatcher]
    exact ⟨rfl, rfl⟩
  · obtain ⟨tree, hparse, htext⟩ := exists_parse_of_output hshown hresult
    have hletters := Grammar.filter_isWordChar_toSource_sublist hparse
    rw [htext, String.toList_ofList] at hletters
    exact hframed.trimmed hletters

/-- A grammar with a folded group is shown with other spaces than it was entered with, and is entered
again as it is shown. -/
theorem shown_grammar_reenters_take :
    let bench := ((new .standard .lenient).eval ":grammar take  (ITEM|NPC|ITEM)?").workbench
    bench.Reachable ∧ (bench.eval ":grammar").result = .ok (.output "take (ITEM|NPC)?") ∧
    Trimmed "take (ITEM|NPC)?".toList ∧
    ((bench.eval ":grammar").workbench.eval ":grammar take (ITEM|NPC)?").result =
      .ok (.output "grammar set: take (ITEM|NPC)?") := by
  intro bench
  have hreachable : bench.Reachable := (Reachable.new .standard .lenient).eval _
  have hshown : (bench.eval ":grammar").result = .ok (.output "take (ITEM|NPC)?") := by
    decide +kernel
  have htrimmed : Trimmed "take (ITEM|NPC)?".toList := by decide +kernel
  exact ⟨hreachable, hshown, htrimmed, ((shown_grammar_reenters hreachable hshown).1 htrimmed).1⟩

/-- A tag that ends with a no-break space loses it when the grammar is entered as it is shown, so the
grammar that is active then is another one. -/
theorem shown_grammar_changes :
    let bench := ((new .standard .lenient).eval ":grammar (A\u00a0|A\u00a0)").workbench
    bench.Reachable ∧ (bench.eval ":grammar").result = .ok (.output "A\u00a0") ∧
    (bench.eval ":grammar A\u00a0").result = .ok (.output "grammar set: A") ∧
    (bench.eval ":grammar A\u00a0").workbench.matcher.map Matcher.grammar ≠
      bench.matcher.map Matcher.grammar ∧
    ¬ ∀ (bench : Workbench) (shown : String), bench.Reachable →
      (bench.eval ":grammar").result = .ok (.output shown) →
      (bench.eval (":grammar " ++ shown)).result = .ok (.output ("grammar set: " ++ shown)) := by
  intro bench
  have hreachable : bench.Reachable := (Reachable.new .standard .lenient).eval _
  have hshown : (bench.eval ":grammar").result = .ok (.output "A\u00a0") := by decide +kernel
  have hagain : (bench.eval ":grammar A\u00a0").result = .ok (.output "grammar set: A") := by
    decide +kernel
  refine ⟨hreachable, hshown, hagain, by decide +kernel, fun hall => ?_⟩
  have hsame := hall bench "A\u00a0" hreachable hshown
  rw [show ":grammar " ++ "A\u00a0" = ":grammar A\u00a0" by decide, hagain] at hsame
  exact absurd (Response.output.inj (Except.ok.inj hsame)) (by decide)

end Workbench
end CommandGrammar
