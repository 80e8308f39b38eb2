import CommandGrammar.Proofs.Grammar.Respacing
import CommandGrammar.Proofs.Workbench.CommandName
import CommandGrammar.Proofs.Workbench.Dialogue
import Mathlib.Data.List.Infix

/-!
# Two ways of joining lines

A grammar that is entered over several lines can be put together in two ways.  Reading an input joins
its lines with spaces (`readInput`).  An editor that reads on by itself hands over one text in which
the line feeds are still there.  It makes no difference which of the two is evaluated.

The texts differ in their separators only, so they are compared by what they have in common, the text
with a space in the place of every separator (`Text.respaced`).  Neither the count of open groups nor
the name of a command depends on the separators (`openGroups_respaced`, `ofLine_respaced`), and of a
source they make no difference to the tree or to an error.  Where a line is continued, its name
begins with `grammar`, so the command either sets a grammar or is refused by its name; commands that
show what the separators are, such as `:tokens`, do not come up.

Main statements:

* `agrees_respaced`: evaluating a command whose name begins with `grammar`;
* `IsEntry.agrees`: evaluating an entry with spaces and with line feeds;
* `joined_entries_agree`: reading an entry and evaluating it.
-/

namespace CommandGrammar

/-! ## Separators of a line -/

namespace Text

theorem trim_map_spaced (cs : List Char) : trim (cs.map spaced) = (trim cs).map spaced := by
  simp only [trim, trimLeft, trimRight, dropWhile_map_spaced isBlank_spaced, ← List.map_reverse]

theorem respaced_eq_empty_iff {text : String} : respaced text = "" ↔ text = "" := by
  rw [respaced, String.ofList_eq_empty_iff, List.map_eq_nil_iff, String.toList_eq_nil_iff]

end Text

namespace Workbench

open Text

theorem isInk_of_isSeparator {c : Char} (h : isSeparator c = true) : isInk c = false := by
  rw [isInk, isBlank_of_isSeparator h]
  rfl

theorem isInk_spaced (c : Char) : isInk (spaced c) = isInk c :=
  apply_spaced (fun _ hc => isInk_of_isSeparator hc) c

/-- The name of a command does not depend on the separators of the line. -/
theorem ofLine_respaced {line name argument : String}
    (h : Input.ofLine line = .command name argument) :
    Input.ofLine (respaced line) = .command name (respaced argument) := by
  unfold Input.ofLine at h
  split at h
  · next rest htrim =>
    obtain ⟨rfl, rfl⟩ := Input.command.inj h
    have hcolon : trim (respaced line).toList = ':' :: rest.map spaced := by
      rw [toList_respaced, trim_map_spaced, htrim, List.map_cons]
      rfl
    unfold Input.ofLine
    rw [hcolon]
    simp only [takeWhile_map_spaced_of_not_isSeparator fun _ hc => isInk_of_isSeparator hc,
      dropWhile_map_spaced isInk_spaced, trim_map_spaced, respaced, String.toList_ofList]
  · cases h

theorem depthAfter_map_spaced (depth : Nat) (cs : List Char) :
    depthAfter depth (cs.map spaced) = depthAfter depth cs := by
  rw [depthAfter_eq_foldl depth 0, Grammar.lexemesFrom_map_spaced, ← depthAfter_eq_foldl]

/-- A beginning that has no separators in it is found in both texts. -/
theorem dropStart_map_spaced {start : List Char} (h : ∀ c ∈ start, isSeparator c = false)
    (cs : List Char) :
    dropStart start (cs.map spaced) = (dropStart start cs).map (List.map spaced) := by
  induction start generalizing cs with
  | nil => rfl
  | cons s start ih =>
    obtain ⟨hs, hstart⟩ := List.forall_mem_cons.mp h
    cases cs with
    | nil => rfl
    | cons c cs =>
      have hsame : s = spaced c ↔ s = c := by
        cases hc : isSeparator c with
        | false => rw [spaced_of_not_isSeparator hc]
        | true =>
          rw [spaced_of_isSeparator hc]
          constructor <;> rintro rfl
          · cases hs
          · rw [hc] at hs
            cases hs
      rw [List.map_cons, dropStart, dropStart, ih hstart]
      simp only [hsame]
      split <;> rfl

/-- As many groups are open, whatever the separators are. -/
theorem openGroups_respaced (line : String) : openGroups (respaced line) = openGroups line := by
  have hgrammar : ":grammar".toList.any isSeparator = false := by decide
  have hstart : ∀ c ∈ ":grammar".toList, isSeparator c = false :=
    fun c hc => Bool.eq_false_iff.mpr (List.any_eq_false.mp hgrammar c hc)
  rw [openGroups, openGroups, toList_respaced, trimLeft, dropWhile_map_spaced isBlank_spaced,
    dropStart_map_spaced hstart, trimLeft]
  cases dropStart ":grammar".toList (line.toList.dropWhile isBlank) with
  | none => rfl
  | some body => exact depthAfter_map_spaced 0 body

/-! ## Evaluating -/

/-- Two evaluations answer alike, report the same events, and leave grammars with the same tree
active. -/
structure Evaluation.Agrees (first second : Evaluation) : Prop where
  result : first.result = second.result
  tree : first.workbench.matcher.map Matcher.grammar = second.workbench.matcher.map Matcher.grammar
  events : first.events = second.events

namespace Evaluation.Agrees

theorem refl (evaluation : Evaluation) : evaluation.Agrees evaluation := ⟨rfl, rfl, rfl⟩

theorem symm {first second : Evaluation} (h : first.Agrees second) : second.Agrees first :=
  ⟨h.result.symm, h.tree.symm, h.events.symm⟩

theorem trans {first second third : Evaluation} (h : first.Agrees second)
    (h' : second.Agrees third) : first.Agrees third :=
  ⟨h.result.trans h'.result, h.tree.trans h'.tree, h.events.trans h'.events⟩

end Evaluation.Agrees

/-- Sources that are read alike are set alike. -/
theorem agrees_setGrammar {source other : String}
    (h : Grammar.parse source = Grammar.parse other) (bench : Workbench) :
    (bench.perform (.setGrammar source)).Agrees (bench.perform (.setGrammar other)) := by
  simp only [perform, setGrammar, Matcher.compile, h]
  cases Grammar.parse other with
  | error error => exact .refl _
  | ok tree => exact ⟨rfl, rfl, rfl⟩

/-- A command whose name begins with `grammar` is evaluated alike, whatever the separators are. -/
theorem agrees_respaced {line more argument : String}
    (h : Input.ofLine line = .command ("grammar" ++ more) argument) (bench : Workbench) :
    (bench.eval (respaced line)).Agrees (bench.eval line) := by
  suffices hagrees : (bench.perform (.ofName ("grammar" ++ more) (respaced argument))).Agrees
      (bench.perform (.ofName ("grammar" ++ more) argument)) by
    have hevents := congrArg (Event.commandEntered ("grammar" ++ more) :: ·) hagrees.events
    rw [eval_of_command h, eval_of_command (ofLine_respaced h)]
    exact ⟨hagrees.result, hagrees.tree, hevents⟩
  by_cases hmore : more = ""
  · subst hmore
    rw [String.append_empty]
    by_cases hargument : argument = ""
    · rw [hargument]
      exact .refl _
    · have hother : respaced argument ≠ "" := respaced_eq_empty_iff.not.mpr hargument
      rw [ofName_eq_setGrammar_iff.mpr ⟨.inl rfl, hargument, rfl⟩,
        ofName_eq_setGrammar_iff.mpr ⟨.inl rfl, hother, rfl⟩]
      exact agrees_setGrammar (Grammar.parse_respaced argument) bench
  · rw [ofName_of_longer hmore, ofName_of_longer hmore]
    exact .refl _

/-! ## Entries -/

/-- The text of an entry with line feeds between the lines. -/
def fed (lines : List String) : String := "\n".intercalate lines

theorem respaced_fed (lines : List String) : respaced (fed lines) = respaced (entry lines) := by
  have hspace := respaced_intercalate (c := ' ') rfl lines
  have hfeed := respaced_intercalate (c := '\n') rfl lines
  exact hfeed.trans hspace.symm

/-- As many groups are open with line feeds between the lines as with spaces. -/
theorem openGroups_fed (lines : List String) : openGroups (fed lines) = openGroups (entry lines) := by
  rw [← openGroups_respaced, respaced_fed, openGroups_respaced]

/-- What comes after a line that is continued leaves it a command whose name begins with
`grammar`. -/
theorem exists_ofLine_append {line : String} (h : 0 < openGroups line) (rest : String) :
    ∃ more argument, Input.ofLine (line ++ rest) = .command ("grammar" ++ more) argument := by
  obtain ⟨body, hbody, -⟩ := exists_body_of_openGroups_pos h
  have hne : trimLeft line.toList ≠ [] := by
    rw [hbody]
    exact List.append_ne_nil_of_left_ne_nil (by decide) _
  have hline : trimLeft (line ++ rest).toList = ":grammar".toList ++ (body ++ rest.toList) := by
    rw [String.toList_append, trimLeft_append hne, hbody, List.append_assoc]
  exact ⟨_, _, ofLine_of_trimLeft hline⟩

theorem IsEntry.agrees {lines : List String} (h : IsEntry lines) (bench : Workbench) :
    (bench.eval (entry lines)).Agrees (bench.eval (fed lines)) := by
  match lines, h with
  | [line], _ => exact .refl _
  | first :: second :: rest, h =>
    have hfirst : 0 < openGroups first := by
      have hopened := h.opened [first] (List.cons_ne_nil _ _) ⟨second :: rest, rfl⟩ (by simp)
      rwa [entry_singleton] at hopened
    obtain ⟨more, argument, hspaces⟩ :=
      exists_ofLine_append hfirst (" " ++ entry (second :: rest))
    obtain ⟨more', argument', hfeeds⟩ :=
      exists_ofLine_append hfirst ("\n" ++ fed (second :: rest))
    have hentry : entry (first :: second :: rest) = first ++ (" " ++ entry (second :: rest)) := by
      rw [entry, String.intercalate_cons_cons, String.append_assoc, entry]
    have hfed : fed (first :: second :: rest) = first ++ ("\n" ++ fed (second :: rest)) := by
      rw [fed, String.intercalate_cons_cons, String.append_assoc, fed]
    rw [← hentry] at hspaces
    rw [← hfed] at hfeeds
    have hcommon := agrees_respaced hfeeds bench
    rw [respaced_fed] at hcommon
    exact (agrees_respaced hspaces bench).symm.trans hcommon

/-! ## Handing over an entry -/

namespace Session

/-- What a session hands over is not asked for. -/
theorem prompts_submit (bench : Workbench) (input : String) :
    (submit bench input).2.prompts = [] := by
  cases hblank : isBlankLine input with
  | true => rw [submit_of_blank hblank]; rfl
  | false =>
    cases hquits : (bench.turn input).quits with
    | true => rw [submit_of_quits hblank hquits]; rfl
    | false => rw [submit_of_not_quits hblank hquits]; rfl

/-- A session evaluates the lines of an entry as one input, and then hears what comes after them. -/
theorem hearAll_entry (bench : Workbench) (prompts : Prompts) {lines : List String}
    (h : IsEntry lines) (more : List Heard) :
    (goOn bench).hearAll prompts (lines.map .line ++ more) =
      (((submit bench (entry lines)).1.hearAll prompts more).1,
        { (submit bench (entry lines)).2 with prompts := asked prompts lines.length } ++
          ((submit bench (entry lines)).1.hearAll prompts more).2) := by
  have hasked : (submit bench (entry lines)).2.prompted (asked prompts lines.length) =
      { (submit bench (entry lines)).2 with prompts := asked prompts lines.length } := by
    rw [Transcript.prompted, prompts_submit, List.append_nil]
  rw [hearAll_eq rfl, goOn, readInput_entry prompts h]
  simp only [proceed_input, hasked]

end Session

/-- **The two ways of joining the lines of an entry agree.**  From the lines of an entry, whatever
else could be heard after them, one input is read: the lines with spaces between them.  These lines
are asked for and no more, and the answers after them are left.  A session evaluates this text before
it hears anything else.  With line feeds between the lines as many groups are open after each of
them, so whoever goes by the count reads on as far.  And on any workbench the evaluations of both
texts answer alike, with the same offset if the source cannot be read, and leave grammars with the
same tree active. -/
theorem joined_entries_agree {lines : List String} (h : IsEntry lines) :
    (∀ (prompts : Prompts) (more : List Heard),
      readInput prompts none (lines.map .line ++ more) =
        ⟨.complete (.ok (some (entry lines))) "", asked prompts lines.length, more⟩) ∧
    (∀ (bench : Workbench) (prompts : Prompts) (more : List Heard),
      (Session.goOn bench).hearAll prompts (lines.map .line ++ more) =
        let submitted := Session.submit bench (entry lines)
        let rest := submitted.1.hearAll prompts more
        (rest.1, { submitted.2 with prompts := asked prompts lines.length } ++ rest.2)) ∧
    (∀ part, part <+: lines → openGroups (fed part) = openGroups (entry part)) ∧
    ∀ bench : Workbench, (bench.eval (entry lines)).Agrees (bench.eval (fed lines)) :=
  ⟨fun prompts more => readInput_entry prompts h more,
    fun bench prompts more => Session.hearAll_entry bench prompts h more,
    fun part _ => openGroups_fed part, h.agrees⟩

/-- A grammar over three lines, and a line after them. -/
theorem joined_entries_agree_give :
    IsEntry [":grammar give (ITEM", "|NPC", ")"] ∧
    readInput standardPrompts none
        [.line ":grammar give (ITEM", .line "|NPC", .line ")", .line "give it"] =
      ⟨.complete (.ok (some ":grammar give (ITEM |NPC )")) "",
        ["grammar> ", "   ...> ", "   ...> "], [.line "give it"]⟩ ∧
    ((new .standard .lenient).eval ":grammar give (ITEM |NPC )").result =
      .ok (.output "grammar set: give (ITEM|NPC)") ∧
    ((new .standard .lenient).eval ":grammar give (ITEM\n|NPC\n)").result =
      .ok (.output "grammar set: give (ITEM|NPC)") := by
  have hopened : ∀ begun ∈ [":grammar give (ITEM", "|NPC", ")"].inits, begun ≠ [] →
      begun ≠ [":grammar give (ITEM", "|NPC", ")"] → 0 < openGroups (entry begun) := by
    decide +kernel
  have hentry : IsEntry [":grammar give (ITEM", "|NPC", ")"] := {
    ne_nil := List.cons_ne_nil _ _
    opened := fun begun hne hbegun => hopened begun ((List.mem_inits _ _).mpr hbegun) hne
    closed := by decide +kernel }
  have htext : entry [":grammar give (ITEM", "|NPC", ")"] = ":grammar give (ITEM |NPC )" := by
    decide +kernel
  have hread := (joined_entries_agree hentry).1 standardPrompts [.line "give it"]
  rw [htext] at hread
  have hspaces : ((new .standard .lenient).eval ":grammar give (ITEM |NPC )").result =
      .ok (.output "grammar set: give (ITEM|NPC)") := by decide +kernel
  exact ⟨hentry, hread, hspaces,
    ((joined_entries_agree hentry).2.2.2 (new .standard .lenient)).result.symm.trans hspaces⟩

end Workbench
end CommandGrammar
